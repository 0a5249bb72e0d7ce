import TcpMuduo.Net.Echo

/-!
Where a thread of the echo server is in `onMessage`: the chunk it holds between
`messageCallback_` and `sendInLoop`, and what each step of the library does to
that chunk.
-/

set_option autoImplicit false
set_option relaxedAutoImplicit false

namespace TcpMuduo

def Functor.Sends : Functor → Prop
  | .sendInLoop _ _ _ _ => True
  | _ => False

/-- Code of `onMessage`, or a `sendInLoop` on its way. -/
def Task.Echoes : Task → Prop
  | .user (some _) => True
  | .functor f | .queueInLoop _ f => f.Sends
  | _ => False

def Task.Trails : Task → Prop
  | .queueInLoop _ f => ¬ f.Sends
  | .queueWakeup _ => True
  | _ => False

namespace Server

variable {s : Server} {t : Tid} {input : Input} {eff : Effect} {c : ConnId}

theorem Does.pushes_echo {head : Option Task} {task : Task} (does : Does s t head input eff)
    (mem : task ∈ eff.push) (echoes : task.Echoes) (silent : ∀ u, input ≠ .call u)
    (work : ∀ l f, f ∈ (s.sys l).work → ¬ f.Sends) :
    ∃ c, head = some (.callback c .read) := by
  have carrying {f : Functor} (carries : task.carries = some f) (sends : f.Sends) : False := by
    cases does.setsOut mem carries with
    | called l f rest here loop push =>
      exact work l f (by simp [LoopSystem.work, here, Position.batch]) sends
    | sendInLoop m c p len r user call state => exact silent _ call
    | _ => exact sends
  cases task with
  | functor f => exact (carrying rfl echoes).elim
  | queueInLoop l f => exact (carrying rfl echoes).elim
  | user m =>
    cases m with
    | none => exact echoes.elim
    | some c =>
      have ran {u : Tid} {l : LoopId} {f : Functor} : Task.user (some c) ≠ runInLoop u l f := by
        unfold runInLoop
        split <;> simp
      have queued (c' : ConnId) (op : ConnOp) : .user (some c) ∉ s.queued c' op := by
        simp [Server.queued]
      have destructor (order : List ConnId) : .user (some c) ∉ s.destructor order := by
        intro mem
        rcases mem_destructor mem with ⟨c', -, same⟩ | ⟨l, same | same⟩ | ⟨op, same⟩
        · exact ran same
        all_goals cases same
      cases does with
      | handleRead t c r fits => exact ⟨c, rfl⟩
      | dispatch l channel rest here =>
        cases channel with
        | wakeup => cases mem
        | acceptor =>
          obtain ⟨k, -, he⟩ := List.mem_filterMap.mp mem
          cases k <;> cases he
        | conn c' =>
          obtain ⟨k, -, he⟩ := List.mem_map.mp mem
          cases he
      | destroy order may => exact absurd mem (destructor order)
      | userDestroy order alone may => simp [destructor] at mem
      | sendInLoop t c' p len call r fits => exact absurd mem (queued c' _)
      | handleWrite t c' r fits =>
        rcases List.mem_append.mp mem with mem | mem
        · exact absurd mem (queued c' _)
        · split at mem
          · cases List.mem_singleton.mp mem
          · cases mem
      | send | sendElsewhere | sendLate | shutdown | shutdownLate | userQueue | userRun | userQuit
      | retrieve | store => exact absurd rfl (silent _)
      | _ => simp [ran] at mem
  | _ => exact echoes.elim

/-- An operation takes nothing in and offers nothing, but for `handleRead` and `sendInLoop`. -/
theorem Operation.silent {head : Option Task} {op : ConnOp} (h : Operation s t c op head input)
    (calls : ∀ u, input ≠ .call u) (reads : ∀ c, head ≠ some (.callback c .read))
    (sends : ∀ f, f.Sends → head ≠ some (.functor f)) :
    op.message = [] ∧ op.received (s.env c) = [] := by
  cases h with
  | handleRead r => exact absurd rfl (reads c)
  | send m p len r => exact absurd rfl (calls _)
  | sendInLoop p len call r => exact absurd rfl (sends _ trivial)
  | _ => exact ⟨rfl, rfl⟩

end Server

namespace EchoServer

variable {e : EchoServer} {l : LoopId} {c : ConnId} {back : List Task} {p : Address} {len : Nat}

/-- The thread of a loop between the statements of `onMessage`, with the chunk that it has taken
in and not yet offered to the kernel. -/
inductive Stage (s : Server) (l : LoopId) : Option Msg → Option (ConnId × List UInt8) → Prop
  | outside (quiet : ∀ task ∈ s.stack (.loop l), ¬ task.Echoes) : Stage s l none none
  | entered (c : ConnId) (back : List Task) (stack : s.stack (.loop l) = .user (some c) :: back)
      (quiet : ∀ task ∈ back, ¬ task.Echoes) : Stage s l none (some (c, (s.env c).unread))
  | constructed (c : ConnId) (back : List Task) (p : Address) (len : Nat)
      (stack : s.stack (.loop l) = .user (some c) :: back)
      (quiet : ∀ task ∈ back, ¬ task.Echoes) :
      Stage s l (some ⟨p, len, false⟩) (some (c, s.bytes p len))
  | sending (c : ConnId) (back : List Task) (p : Address) (len call : Nat)
      (stack : s.stack (.loop l) = .functor (.sendInLoop c p len call) :: .user (some c) :: back)
      (quiet : ∀ task ∈ back, ¬ task.Echoes) :
      Stage s l (some ⟨p, len, true⟩) (some (c, s.bytes p len))
  | sent (c : ConnId) (front back : List Task) (p : Address) (len : Nat)
      (stack : s.stack (.loop l) = front ++ .user (some c) :: back)
      (trail : ∀ task ∈ front, task.Trails) (quiet : ∀ task ∈ back, ¬ task.Echoes) :
      Stage s l (some ⟨p, len, true⟩) none

def chunk (e : EchoServer) (l : LoopId) : Option (ConnId × List UInt8) :=
  match e.server.stack (.loop l), e.msg l with
  | .user (some c) :: _, none => some (c, (e.server.env c).unread)
  | .user (some c) :: _, some ⟨p, len, false⟩ => some (c, e.server.bytes p len)
  | .functor (.sendInLoop c p len _) :: _, _ => some (c, e.server.bytes p len)
  | _, _ => none

theorem Stage.chunk_eq {held : Option (ConnId × List UInt8)}
    (stage : Stage e.server l (e.msg l) held) : e.chunk l = held := by
  generalize hm : e.msg l = msg at stage
  cases stage with
  | outside quiet =>
    have first {task : Task} {back : List Task} (stack : e.server.stack (.loop l) = task :: back) :
        ¬ task.Echoes := quiet task (stack ▸ List.mem_cons_self)
    unfold chunk
    split
    · rename_i stack _
      exact absurd trivial (first stack)
    · rename_i stack _
      exact absurd trivial (first stack)
    · rename_i stack
      exact absurd trivial (first stack)
    · rfl
  | entered c back stack quiet => simp only [chunk, stack, hm]
  | constructed c back p len stack quiet => simp only [chunk, stack, hm]
  | sending c back p len call stack quiet => simp only [chunk, stack, hm]
  | sent c front back p len stack trail quiet =>
    cases front with
    | nil =>
      rw [List.nil_append] at stack
      simp only [chunk, stack, hm]
    | cons task front =>
      have trails := trail task List.mem_cons_self
      rw [List.cons_append] at stack
      cases task with
      | queueInLoop l' f => simp only [chunk, stack, hm]
      | queueWakeup l' => simp only [chunk, stack, hm]
      | _ => exact trails.elim

theorem Stage.elsewhere {s s' : Server} {msg : Option Msg}
    {held : Option (ConnId × List UInt8)} (stage : Stage s l msg held)
    (stack : s'.stack (.loop l) = s.stack (.loop l))
    (unread : ∀ c, .user (some c) ∈ s.stack (.loop l) → (s'.env c).unread = (s.env c).unread)
    (bytes : ∀ m ∈ msg, s'.bytes m.data m.len = s.bytes m.data m.len) : Stage s' l msg held := by
  cases stage with
  | outside quiet => exact .outside (by rwa [stack])
  | entered c back here quiet =>
    rw [← unread c (here ▸ List.mem_cons_self)]
    exact .entered c back (stack.trans here) quiet
  | constructed c back p len here quiet =>
    rw [← bytes _ rfl]
    exact .constructed c back p len (stack.trans here) quiet
  | sending c back p len call here quiet =>
    rw [← bytes _ rfl]
    exact .sending c back p len call (stack.trans here) quiet
  | sent c front back p len here trail quiet =>
    exact .sent c front back p len (stack.trans here) trail quiet

theorem Stage.known {s : Server} {msg : Option Msg} {data : List UInt8}
    (stage : Stage s l msg (some (c, data))) (confined : s.Confined) :
    s.Known c ∧ l = (s.conn c).loop_ := by
  have user (mem : .user (some c) ∈ s.stack (.loop l)) : s.Known c ∧ l = (s.conn c).loop_ := by
    obtain ⟨known, own⟩ := confined.tasks _ _ mem
    exact ⟨known, Tid.loop.inj own⟩
  cases stage with
  | entered c back stack quiet => exact user (stack ▸ List.mem_cons_self)
  | constructed c back p len stack quiet => exact user (stack ▸ List.mem_cons_self)
  | sending c back p len call stack quiet =>
    exact user (stack ▸ List.mem_cons_of_mem _ List.mem_cons_self)

theorem Stage.user_mem {s : Server} {m : Msg} {held : Option (ConnId × List UInt8)}
    (stage : Stage s l (some m) held) : ∃ c, .user (some c) ∈ s.stack (.loop l) := by
  cases stage with
  | constructed c back p len stack quiet => exact ⟨c, stack ▸ List.mem_cons_self⟩
  | sending c back p len call stack quiet =>
    exact ⟨c, stack ▸ List.mem_cons_of_mem _ List.mem_cons_self⟩
  | sent c front back p len stack trail quiet =>
    exact ⟨c, stack ▸ List.mem_append_right _ List.mem_cons_self⟩

theorem Stage.constructed_of {s : Server} {held : Option (ConnId × List UInt8)}
    (stage : Stage s l (some ⟨p, len, false⟩) held)
    (stack : s.stack (.loop l) = .user (some c) :: back) :
    held = some (c, s.bytes p len) ∧ ∀ task ∈ back, ¬ task.Echoes := by
  cases stage with
  | constructed c' back' p' len' here quiet =>
    rw [stack] at here
    cases here
    exact ⟨rfl, quiet⟩

theorem Stage.entered_of {s : Server} {held : Option (ConnId × List UInt8)}
    (stage : Stage s l none held) (stack : s.stack (.loop l) = .user (some c) :: back) :
    held = some (c, (s.env c).unread) ∧ ∀ task ∈ back, ¬ task.Echoes := by
  cases stage with
  | outside quiet => exact absurd trivial (quiet (.user (some c)) (stack ▸ List.mem_cons_self))
  | entered c' back' here quiet =>
    rw [stack] at here
    cases here
    exact ⟨rfl, quiet⟩

theorem Stage.sent_of {s : Server} {held : Option (ConnId × List UInt8)}
    (stage : Stage s l (some ⟨p, len, true⟩) held)
    (stack : s.stack (.loop l) = .user (some c) :: back) :
    held = none ∧ ∀ task ∈ back, ¬ task.Echoes := by
  cases stage with
  | sending c' back' p' len' call here quiet =>
    rw [stack] at here
    cases here
  | sent c' front back' p' len' here trail quiet =>
    rw [stack] at here
    cases front with
    | nil =>
      cases here
      exact ⟨rfl, quiet⟩
    | cons task front =>
      cases here
      exact (trail (.user (some c)) List.mem_cons_self).elim

def heldOf (c : ConnId) : Option (ConnId × List UInt8) → List (List UInt8)
  | some (c', data) => if c' = c then [data] else []
  | none => []

private theorem heldOf_self (c : ConnId) (data : List UInt8) : heldOf c (some (c, data)) = [data] :=
  if_pos rfl

theorem heldOf_other {c c' : ConnId} (data : List UInt8) (other : c' ≠ c) :
    heldOf c (some (c', data)) = [] := if_neg other

section Library

variable {s : Server} {msg : Option Msg} {held : Option (ConnId × List UInt8)}
variable {a : Input} {eff : Effect} {sys : LoopId → LoopSystem Tid Functor ChannelRef}

/-- What a step of a thread does to its chunk: what is shown to the user is held from then on, and
what is held no longer has been offered. -/
structure Passes (s : Server) (i : Tid × Input) (s' : Server) (l : LoopId) (msg : Option Msg)
    (held held' : Option (ConnId × List UInt8)) : Prop where
  stage : Stage s' l msg held'
  chunk : ∀ c, heldOf c held ++ s.showsOn c i = s.messages c i ++ heldOf c held'
  entered : ∀ c, s.receivedOn c i ≠ [] →
    msg = none ∧ ∃ back, s'.stack (.loop l) = .user (some c) :: back

theorem Passes.still {s' : Server} {i : Tid × Input} (stage : Stage s' l msg held)
    (none : ∀ c op, s.opOn c i = some op → op.message = [] ∧ op.received (s.env c) = []) :
    Passes s i s' l msg held held := by
  refine ⟨stage, ?_, ?_⟩
  · intro c
    obtain ⟨offers, -, shows⟩ := Server.silentOn (none c)
    rw [offers, shows, List.append_nil, List.nil_append]
  · intro c some
    exact absurd (Server.silentOn (none c)).2.1 some

theorem offered_passes {s' : Server} {c : ConnId} {data : List UInt8} {r : WriteResult}
    (effect : s.effect (.loop l) a = some eff) (change : eff.change = .conn c (.sendInLoop data r))
    (stage : Stage s' l msg none) :
    Passes s (.loop l, a) s' l msg (some (c, data)) none := by
  have opOn (c' : ConnId) : s.opOn c' (.loop l, a)
      = if c = c' then some (.sendInLoop data r) else none := Server.opOn_of_change effect change
  have received (c' : ConnId) : s.receivedOn c' (.loop l, a) = [] := by
    unfold Server.receivedOn
    rw [opOn c']
    split <;> rfl
  refine ⟨stage, ?_, fun c' some => absurd (received c') some⟩
  intro c'
  rw [Server.showsOn, if_pos (received c'), Server.messages, opOn c', heldOf]
  split <;> rfl

theorem queued_trails {c : ConnId} {op : ConnOp} : ∀ task ∈ s.queued c op, task.Trails := by
  intro task mem
  obtain ⟨f, made, rfl⟩ := List.mem_map.mp mem
  rcases ConnOp.queue made with none | rfl | ⟨size, rfl⟩
  · cases none
  · exact id
  · exact id

/-- A `handleRead` that brings bytes in is followed by `onMessage`, which has been shown them. -/
theorem read_passes {c : ConnId} {back : List Task} {r : ReadvResult}
    (effect : s.effect (.loop l) (.read r) = some eff)
    (stack : s.stack (.loop l) = .callback c .read :: back)
    (quiet : ∀ task ∈ s.stack (.loop l), ¬ task.Echoes) :
    ∃ held', Passes s (.loop l, .read r) (s.after (.loop l) eff sys) l none none held' := by
  have does := Server.effect_does effect
  have behind : ∀ task ∈ back, ¬ task.Echoes :=
    fun task mem => quiet task (stack ▸ List.mem_cons_of_mem _ mem)
  have after : (s.after (.loop l) eff sys).stack (.loop l) = eff.push ++ back := by simp [stack]
  rw [stack] at does
  cases does with
  | handleRead t c' r' fits =>
    have opOn (c' : ConnId) : s.opOn c' (.loop l, .read r)
        = if c = c' then some (.handleRead r) else none := Server.opOn_of_change effect rfl
    have offers (c' : ConnId) : s.messages c' (.loop l, .read r) = [] := by
      unfold Server.messages
      rw [opOn c']
      split <;> rfl
    have received (c' : ConnId) : s.receivedOn c' (.loop l, .read r)
        = if c = c' then r.bytes else [] := by
      unfold Server.receivedOn
      rw [opOn c']
      split
      · rename_i same
        subst same
        exact if_pos fits
      · rfl
    by_cases some : r.ret > 0
    · have bytes := r.ret_pos.mp some
      have first : [Server.readTask c r] ++ back = .user (Option.some c) :: back := by
        rw [Server.readTask, if_pos some]
        rfl
      refine ⟨_, .entered c back (after.trans first) behind, ?_, ?_⟩
      · intro c'
        rw [offers, List.nil_append, Server.showsOn, received]
        by_cases same : c = c'
        · subst same
          have grown := ConnOp.unread_apply (c := c) (e := s.env c) (.handleRead r)
          have taken : ConnOp.received (s.env c) (.handleRead r) = r.bytes := if_pos fits
          rw [taken] at grown
          rw [if_pos rfl, if_neg bytes, heldOf_self, ← grown]
          refine congrArg (fun str => [str]) ?_
          simp [Server.env, Server.act, Server.put, ConnEnv.unread, ConnOp.retrieved]
        · rw [if_neg same, if_pos rfl, heldOf_other _ same]
          rfl
      · intro c' brought
        rw [received] at brought
        split at brought
        · rename_i same
          exact ⟨rfl, back, same ▸ after.trans first⟩
        · exact absurd rfl brought
    · have bytes : r.bytes = [] := by_contra fun h => some (r.ret_pos.mpr h)
      refine ⟨none, .still (.outside ?_) ?_⟩
      · rw [after]
        intro task mem
        rcases List.mem_append.mp mem with mem | mem
        · rw [List.mem_singleton.mp mem, Server.readTask, if_neg some]
          split <;> exact id
        · exact behind task mem
      · intro c' op here
        rw [opOn c'] at here
        split at here
        · cases here
          exact ⟨rfl, by simp [ConnOp.received, bytes]⟩
        · cases here

theorem Stage.library (stage : Stage s l msg held) (effect : s.effect (.loop l) a = some eff)
    (silent : ∀ u, a ≠ .call u)
    (outside : ∀ c, (s.stack (.loop l)).head? ≠ some (.user (some c)))
    (work : ∀ l f, f ∈ (s.sys l).work → ¬ f.Sends) :
    ∃ held', Passes s (.loop l, a) (s.after (.loop l) eff sys) l msg held held' := by
  have does := Server.effect_does effect
  have after : (s.after (.loop l) eff sys).stack (.loop l)
      = eff.push ++ (s.stack (.loop l)).tail := by simp
  have idle (nothing : eff.change = .nothing) (c : ConnId) (op : ConnOp)
      (here : s.opOn c (.loop l, a) = some op) :
      op.message = [] ∧ op.received (s.env c) = [] := by
    have change := Server.change_of_opOn effect here
    rw [nothing] at change
    cases change
  cases stage with
  | outside quiet =>
    by_cases reads : ∃ c, (s.stack (.loop l)).head? = some (.callback c .read)
    · obtain ⟨c, reads⟩ := reads
      obtain ⟨back, stack⟩ := List.head?_eq_some_iff.mp reads
      rw [reads] at does
      cases does with
      | handleRead t c' r fits => exact read_passes effect stack quiet
    · refine ⟨none, .still (.outside ?_) ?_⟩
      · rw [after]
        intro task mem
        rcases List.mem_append.mp mem with mem | mem
        · exact fun echoes => reads (does.pushes_echo mem echoes silent work)
        · exact quiet task (List.mem_of_mem_tail mem)
      · intro c op here
        have change := Server.change_of_opOn effect here
        refine (does.operation change).silent silent (fun c here => reads ⟨c, here⟩) ?_
        intro f sends here
        exact quiet _ (List.mem_of_mem_head? here) sends
  | entered c back stack quiet => exact absurd (congrArg List.head? stack) (outside c)
  | constructed c back p len stack quiet => exact absurd (congrArg List.head? stack) (outside c)
  | sending c back p len call stack quiet =>
    rw [stack] at does after
    cases does with
    | sendInLoop t c' p' len' call' r fits =>
      exact ⟨none, offered_passes effect rfl (.sent c _ back p len after queued_trails quiet)⟩
  | sent c front back p len stack trail quiet =>
    cases front with
    | nil => exact absurd (congrArg List.head? stack) (outside c)
    | cons task front =>
      have trails := trail task List.mem_cons_self
      have others : ∀ task ∈ front, task.Trails :=
        fun task mem => trail task (List.mem_cons_of_mem _ mem)
      rw [stack] at does after
      cases task with
      | queueInLoop l' f =>
        cases does with
        | queueInLoop t l' f =>
          refine ⟨none, .still (.sent c (.queueWakeup l' :: front) back p len after ?_ quiet)
            (idle rfl)⟩
          exact List.forall_mem_cons.mpr ⟨trivial, others⟩
      | queueWakeup l' =>
        cases does with
        | queueWakeup t l' =>
          exact ⟨none, .still (.sent c front back p len after others quiet) (idle rfl)⟩
      | _ => exact trails.elim

end Library

end EchoServer

end TcpMuduo
