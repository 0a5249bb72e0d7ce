import TcpMuduo.Net.EchoStages
import TcpMuduo.Net.Removal
import TcpMuduo.Net.ThreadPool

/-!
What the echo server sends back, over all its runs: each chunk that comes in is
offered to the kernel once, as a whole and in its order, and what the kernel
takes over of it is lost nowhere.
-/

set_option autoImplicit false
set_option relaxedAutoImplicit false

namespace TcpMuduo

namespace EchoServer

variable {e e' : EchoServer} {t : Tid} {i : Tid × EchoInput} {config : ServerConfig}

/-- The chunk of `c` that the thread of its loop has taken in and not yet offered. -/
def pending (e : EchoServer) (c : ConnId) : List (List UInt8) :=
  heldOf c (e.chunk (e.server.conn c).loop_)

/-- The thread of `c` is about to retrieve what `messageCallback_` has been shown. -/
def Entered (e : EchoServer) (c : ConnId) : Prop :=
  e.msg (e.server.conn c).loop_ = none ∧
    ∃ back, e.server.stack (.loop (e.server.conn c).loop_) = .user (some c) :: back

/-- No thread has anything of `onMessage` left but what its stage says, and nothing is unread
behind `onMessage`. -/
structure Echoes (e : EchoServer) : Prop where
  stage : ∀ l, ∃ held, Stage e.server l (e.msg l) held
  users : ∀ n, ∀ task ∈ e.server.stack (.user n), ¬ task.Echoes
  work : ∀ l f, f ∈ (e.server.sys l).work → ¬ f.Sends
  unread : ∀ c, (e.server.env c).unread = [] ∨ e.Entered c

/-- What a step of the process does for the connection `c`. -/
structure Turn (e : EchoServer) (i : Tid × EchoInput) (e' : EchoServer) (c : ConnId) : Prop where
  chunk : e.pending c ++ Server.machine.collect (Server.showsOn c) e.server (e.inputs i)
    = Server.machine.collect (Server.messages c) e.server (e.inputs i) ++ e'.pending c
  received : Server.machine.collect (Server.receivedOn c) e.server (e.inputs i)
    = (Server.machine.collect (Server.showsOn c) e.server (e.inputs i)).flatten

theorem Echoes.chunk (inv : e.Echoes) (l : LoopId) : Stage e.server l (e.msg l) (e.chunk l) := by
  obtain ⟨held, stage⟩ := inv.stage l
  exact stage.chunk_eq ▸ stage

private theorem Echoes.pending_of_unknown (inv : e.Echoes) (confined : e.server.Confined)
    {c : ConnId}
    (unknown : ¬ e.server.Known c) : e.pending c = [] := by
  have stage := inv.chunk (e.server.conn c).loop_
  unfold pending
  cases held : e.chunk (e.server.conn c).loop_ with
  | none => rfl
  | some chunk =>
    obtain ⟨c', data⟩ := chunk
    rw [held] at stage
    refine heldOf_other data ?_
    rintro rfl
    exact unknown (stage.known confined).1

/-- The step that a step of the process ends with: those before it are silent. -/
structure Ends (e : EchoServer) (i : Tid × EchoInput) (s : Server) (j : Tid × Input) : Prop where
  messages : ∀ c, Server.machine.collect (Server.messages c) e.server (e.inputs i) = s.messages c j
  received : ∀ c,
    Server.machine.collect (Server.receivedOn c) e.server (e.inputs i) = s.receivedOn c j
  shows : ∀ c, Server.machine.collect (Server.showsOn c) e.server (e.inputs i) = s.showsOn c j

private theorem ends_single {j : Tid × Input} (inputs : e.inputs i = [j]) :
    e.Ends i e.server j := by
  have one {κ : Type} (out : Server → Tid × Input → List κ) :
      Server.machine.collect out e.server (e.inputs i) = out e.server j :=
    inputs ▸ (Lib.Machine.Run.nil (M := Server.machine)).collect_snoc out j
  exact ⟨fun _ => one _, fun _ => one _, fun _ => one _⟩

section Turn

variable {mem : Address → UInt8} {a : EchoInput} {b : Input} {server : Server}
variable {msg' : LoopId → Option Msg}

/-- The last step of the server that a step of the process takes, by what it does on its own
thread. -/
theorem turn (inv : e.Echoes) (before : e.server.Confined)
    (hs : Server.machine.step (e.server.withMem mem) (t, b) = some server)
    (ends : e.Ends (t, a) (e.server.withMem mem) (t, b))
    (own : ∀ l, t = .loop l →
      ∃ held', Passes (e.server.withMem mem) (t, b) server l (msg' l) (e.chunk l) held')
    (msgs : ∀ l, t ≠ .loop l → msg' l = e.msg l)
    (bytes : ∀ l, t ≠ .loop l → ∀ m ∈ e.msg l,
      server.bytes m.data m.len = e.server.bytes m.data m.len)
    (users : ∀ n, t = .user n → ∀ task ∈ server.stack (.user n), ¬ task.Echoes)
    (work : ∀ l f, f ∈ (server.sys l).work → ¬ f.Sends)
    (unread : ∀ c, e.server.Created c → t = .loop (e.server.conn c).loop_ →
      (server.env c).unread = [] ∨ Entered ⟨server, msg'⟩ c) :
    Echoes ⟨server, msg'⟩ ∧ ∀ c, Turn e (t, a) ⟨server, msg'⟩ c := by
  have confined := before.withMem mem
  obtain ⟨eff, effect, made⟩ := Option.bind_eq_some_iff.mp
    (show (e.server.withMem mem).step (t, b) = some server from hs)
  obtain ⟨sys, -, after⟩ := Option.map_eq_some_iff.mp made
  have ext : (e.server.withMem mem).Extends server := by
    rw [← after]
    exact Server.after_extends _ t eff sys
  have stack (u : Tid) (other : u ≠ t) : server.stack u = e.server.stack u := by
    rw [← after, Server.after_stack, Function.update_of_ne other]
    rfl
  have foreign {c : ConnId} (other : e.server.Created c → .loop (e.server.conn c).loop_ ≠ t) :=
    Server.foreign (c := c) confined hs other
  have loop {c : ConnId} (created : e.server.Created c) :
      (server.conn c).loop_ = (e.server.conn c).loop_ := ext.loop c created
  have entered {c : ConnId} (created : e.server.Created c) (here : e.Entered c)
      (other : .loop (e.server.conn c).loop_ ≠ t) : Entered ⟨server, msg'⟩ c := by
    obtain ⟨none, back, first⟩ := here
    unfold Entered
    dsimp only
    rw [loop created, msgs _ (Ne.symm other), stack _ other]
    exact ⟨none, back, first⟩
  have user {c : ConnId} {l : LoopId} (mem : .user (some c) ∈ e.server.stack (.loop l)) :
      e.server.Known c ∧ Tid.loop l = .loop (e.server.conn c).loop_ :=
    confined.tasks (.loop l) (.user (some c)) mem
  have elsewhere {l : LoopId} (other : t ≠ .loop l) : Stage server l (msg' l) (e.chunk l) := by
    rw [msgs l other]
    refine (inv.chunk l).elsewhere (stack _ (Ne.symm other)) ?_ (bytes l other)
    intro c mem
    obtain ⟨known, own⟩ := user mem
    obtain ⟨-, same | ⟨fresh, -⟩⟩ := foreign (c := c) fun _ here => other (here.symm.trans own.symm)
    · exact same
    · exact absurd known.1 fresh
  have echoes : Echoes ⟨server, msg'⟩ := by
    refine ⟨?_, ?_, work, ?_⟩
    · intro l
      by_cases here : t = .loop l
      · obtain ⟨held', passes⟩ := own l here
        exact ⟨held', passes.stage⟩
      · exact ⟨_, elsewhere here⟩
    · intro n
      by_cases here : t = .user n
      · exact users n here
      · dsimp only
        rw [stack _ (Ne.symm here)]
        exact inv.users n
    · intro c
      by_cases here : e.server.Created c ∧ t = .loop (e.server.conn c).loop_
      · exact unread c here.1 here.2
      · have other (created : e.server.Created c) : .loop (e.server.conn c).loop_ ≠ t :=
          fun same => here ⟨created, same.symm⟩
        obtain ⟨-, same | ⟨-, none⟩⟩ := foreign other
        · dsimp only
          rw [same]
          refine (inv.unread c).imp_right fun before => ?_
          have mem : .user (some c) ∈ e.server.stack (.loop (e.server.conn c).loop_) := by
            obtain ⟨-, back, first⟩ := before
            exact first ▸ List.mem_cons_self
          have created : e.server.Created c := (user mem).1.1
          exact entered created before (other created)
        · exact .inl none
  refine ⟨echoes, ?_⟩
  · intro c
    refine ⟨?_, ?_⟩
    · rw [ends.shows, ends.messages]
      by_cases created : e.server.Created c
      · by_cases here : t = .loop (e.server.conn c).loop_
        · obtain ⟨held', passes⟩ := own _ here
          have now : chunk ⟨server, msg'⟩ (server.conn c).loop_ = held' := by
            rw [loop created]
            exact passes.stage.chunk_eq
          unfold pending
          dsimp only
          rw [now]
          exact passes.chunk c
        · obtain ⟨⟨offers, -, shows⟩, -⟩ := foreign (c := c) fun _ => Ne.symm here
          have now : chunk ⟨server, msg'⟩ (server.conn c).loop_
              = e.chunk (e.server.conn c).loop_ := by
            rw [loop created]
            exact (elsewhere here).chunk_eq
          unfold pending
          dsimp only
          rw [now, offers, shows, List.append_nil, List.nil_append]
      · have unknown : ¬ server.Known c := by
          rintro ⟨-, up⟩
          rw [← after] at up
          rcases Server.up_after up with old | new
          · exact created (before.created c old)
          · exact created (confined.operates (Server.effect_does effect) new).1
        obtain ⟨⟨offers, -, shows⟩, -⟩ := foreign fun here => absurd here created
        rw [inv.pending_of_unknown before fun known => created known.1,
          echoes.pending_of_unknown (confined.step hs) unknown, offers, shows]
    · rw [ends.received, ends.shows, Server.showsOn]
      split
      · rename_i none
        exact none
      · rename_i brought
        have head := Server.head_of_receivedOn effect brought
        have here : .loop (e.server.conn c).loop_ = t :=
          by_contra fun other => brought (foreign fun _ => other).1.2.1
        have none : ((e.server.withMem mem).env c).unread = [] := by
          refine (inv.unread c).resolve_right ?_
          rintro ⟨-, back, first⟩
          rw [here] at first
          have user := congrArg List.head? first
          rw [show e.server.stack t = (e.server.withMem mem).stack t from rfl, head] at user
          cases user
        rw [none, List.nil_append, List.flatten_singleton]

private theorem unread_after (inv : e.Echoes) (confined : e.server.Confined)
    (hs : Server.machine.step e.server (t, b) = some server)
    (keeps : ∀ len, b ≠ .call (.retrieve len))
    (own : ∀ l, t = .loop l →
      ∃ held', Passes e.server (t, b) server l (msg' l) (e.chunk l) held')
    (outside : ∀ c, t = .loop (e.server.conn c).loop_ → ¬ e.Entered c)
    (c : ConnId) (created : e.server.Created c) (here : t = .loop (e.server.conn c).loop_) :
    (server.env c).unread = [] ∨ Entered ⟨server, msg'⟩ c := by
  have none := (inv.unread c).resolve_right (outside c here)
  obtain ⟨held', passes⟩ := own _ here
  obtain ⟨eff, sys, -, -, rfl⟩ := Server.step_does hs
  have loop := (e.server.after_extends t eff sys).loop c created
  rcases (Server.step_sees confined hs c).unread (Server.retrievedOn_eq_nil keeps) with same | new
  · rw [none, List.nil_append] at same
    by_cases brought : e.server.receivedOn c (t, b) = []
    · exact .inl (same.trans brought)
    · obtain ⟨returned, first⟩ := passes.entered c brought
      refine .inr ⟨?_, ?_⟩
      · dsimp only
        rw [loop]
        exact returned
      · dsimp only
        rw [loop]
        exact first
  · exact absurd created new.1

end Turn

private theorem Echoes.queues (inv : e.Echoes) {l : LoopId} {f : Functor}
    (head : (e.server.stack t).head? = some (.queueInLoop l f)) : ¬ f.Sends := by
  obtain ⟨rest, stack⟩ := List.head?_eq_some_iff.mp head
  cases t with
  | user n => exact inv.users n _ (stack ▸ List.mem_cons_self)
  | loop l' =>
    obtain ⟨held, stage⟩ := inv.stage l'
    generalize e.msg l' = msg at stage
    cases stage with
    | outside quiet => exact quiet _ (stack ▸ List.mem_cons_self)
    | entered c back here quiet | constructed c back p len here quiet
    | sending c back p len call here quiet =>
      rw [stack] at here
      cases here
    | sent c front back p len here trail quiet =>
      rw [stack] at here
      cases front with
      | nil => cases here
      | cons task front =>
        cases here
        exact trail _ List.mem_cons_self

theorem Echoes.work_after (inv : e.Echoes) {server : Server} {b : Input}
    (hs : Server.machine.step e.server (t, b) = some server) :
    ∀ l f, f ∈ (server.sys l).work → ¬ f.Sends := by
  obtain ⟨eff, sys, does, loops, rfl⟩ := Server.step_does hs
  intro l f mem
  rcases does.mem_work loops mem with old | queued
  · exact inv.work l f old
  · exact inv.queues queued

private theorem turn_library (inv : e.Echoes) (confined : e.server.Confined) {a : Input}
    {server : Server}
    (outside : ∀ c, (e.server.stack t).head? ≠ some (.user (some c)))
    (silent : ∀ u, a ≠ .call u) (inputs : e.inputs (t, .library a) = [(t, a)])
    (hs : Server.machine.step e.server (t, a) = some server) :
    Echoes ⟨server, e.msg⟩ ∧ ∀ c, Turn e (t, .library a) ⟨server, e.msg⟩ c := by
  obtain ⟨eff, effect, made⟩ := Option.bind_eq_some_iff.mp
    (show e.server.step (t, a) = some server from hs)
  obtain ⟨sys, -, after⟩ := Option.map_eq_some_iff.mp made
  have does := Server.effect_does effect
  have own (l : LoopId) (here : t = .loop l) :
      ∃ held', Passes e.server (t, a) server l (e.msg l) (e.chunk l) held' := by
    subst here
    rw [← after]
    exact (inv.chunk l).library effect silent outside inv.work
  have entered (c : ConnId) (here : t = .loop (e.server.conn c).loop_) : ¬ e.Entered c := by
    rintro ⟨-, back, first⟩
    rw [← here] at first
    exact outside c (congrArg List.head? first)
  have memory : server.mem = e.server.mem := by
    rw [← after]
    exact does.mem fun p byte => silent _
  refine turn inv confined hs (ends_single inputs) own (fun _ _ => rfl) ?_ ?_
    (inv.work_after hs)
    (unread_after inv confined hs (fun len => silent _) own entered)
  · intro l _ m _
    unfold Server.bytes
    rw [memory]
  · rintro n rfl task mem echoes
    rw [← after] at mem
    rcases Server.mem_after_stack _ _ _ _ mem with ⟨-, pushed⟩ | old
    · obtain ⟨c, read⟩ := does.pushes_echo pushed echoes silent inv.work
      have own := (confined.tasks (.user n) (.callback c .read) (List.mem_of_mem_head? read)).2
      cases own
    · exact inv.users n task old echoes

section OnMessage

variable {l : LoopId} {c : ConnId} {back : List Task} {p : Address} {len : Nat} {server : Server}

private theorem turn_statement (inv : e.Echoes) (confined : e.server.Confined) {a : EchoInput}
    {b : Input}
    {m : Msg} {m' : Option Msg} (msg : e.msg l = some m)
    (inputs : e.inputs (.loop l, a) = [(.loop l, b)])
    (hs : Server.machine.step e.server (.loop l, b) = some server)
    (keeps : ∀ len, b ≠ .call (.retrieve len))
    (bytes : ∀ p len, server.bytes p len = e.server.bytes p len)
    (own : ∃ held', Passes e.server (.loop l, b) server l m' (e.chunk l) held') :
    Echoes ⟨server, Function.update e.msg l m'⟩ ∧
      ∀ c, Turn e (.loop l, a) ⟨server, Function.update e.msg l m'⟩ c := by
  have passes (l' : LoopId) (here : Tid.loop l = .loop l') :
      ∃ held', Passes e.server (.loop l, b) server l' (Function.update e.msg l m' l') (e.chunk l')
        held' := by
    cases here
    rw [Function.update_self]
    exact own
  refine turn inv confined hs (ends_single inputs) passes ?_ (fun _ _ m _ => bytes _ _) (by simp)
    (inv.work_after hs) (unread_after inv confined hs keeps passes ?_)
  · intro l' other
    refine Function.update_of_ne ?_ _ _
    rintro rfl
    exact other rfl
  · rintro c' here ⟨none, -⟩
    rw [← Tid.loop.inj here, msg] at none
    cases none

private theorem turn_send (inv : e.Echoes) (confined : e.server.Confined) {r : WriteResult}
    (stack : e.server.stack (.loop l) = .user (some c) :: back)
    (msg : e.msg l = some ⟨p, len, false⟩)
    (inputs : e.inputs (.loop l, .send r) = [(.loop l, .call (.send c p len r))])
    (hs : Server.machine.step e.server (.loop l, .call (.send c p len r)) = some server) :
    Echoes ⟨server, Function.update e.msg l (some ⟨p, len, true⟩)⟩ ∧ ∀ c, Turn e (.loop l, .send r)
      ⟨server, Function.update e.msg l (some ⟨p, len, true⟩)⟩ c := by
  obtain ⟨eff, effect, made⟩ := Option.bind_eq_some_iff.mp
    (show e.server.step (.loop l, .call (.send c p len r)) = some server from hs)
  obtain ⟨sys, -, after⟩ := Option.map_eq_some_iff.mp made
  have does := Server.effect_does effect
  have loop : l = (e.server.conn c).loop_ := by
    have own := (confined.tasks (.loop l) (.user (some c)) (stack ▸ List.mem_cons_self)).2
    exact Tid.loop.inj own
  obtain ⟨held, quiet⟩ := (msg ▸ inv.chunk l).constructed_of stack
  have behind : server.stack (.loop l) = eff.push ++ back := by
    rw [← after]
    simp [stack]
  have bytes (p : Address) (len : Nat) : server.bytes p len = e.server.bytes p len := by
    unfold Server.bytes
    rw [← after]
    exact does.mem (by simp) ▸ rfl
  have own : ∃ held', Passes e.server (.loop l, .call (.send c p len r)) server l
      (some ⟨p, len, true⟩) (some (c, e.server.bytes p len)) held' := by
    rw [stack] at does
    cases does with
    | send t m c' p' len' r' up connected own fits =>
      have trails : server.stack (.loop l)
          = e.server.queued c (.sendInLoop (e.server.bytes p len) r) ++ .user (some c) :: back := by
        rw [behind, List.append_assoc]
        rfl
      exact ⟨none, offered_passes effect rfl (.sent c _ back p len trails queued_trails quiet)⟩
    | sendElsewhere t m c' p' len' r' up connected other =>
      exact absurd (congrArg Tid.loop loop) other
    | sendLate t m c' p' len' r' up state =>
      have next : server.stack (.loop l)
          = .functor (.sendInLoop c p len e.server.sends.length) :: .user (some c) :: back := by
        rw [behind, runInLoop, if_pos (congrArg Tid.loop loop)]
        rfl
      refine ⟨some (c, e.server.bytes p len), .still ?_ ?_⟩
      · rw [← bytes]
        exact .sending c back p len _ next quiet
      · intro c' op here
        cases Server.change_of_opOn effect here
  rw [← held] at own
  exact turn_statement inv confined msg inputs hs (by simp) bytes own

private theorem turn_returns (inv : e.Echoes) (confined : e.server.Confined)
    (stack : e.server.stack (.loop l) = .user (some c) :: back)
    (msg : e.msg l = some ⟨p, len, true⟩)
    (inputs : e.inputs (.loop l, .returns) = [(.loop l, .run)])
    (hs : Server.machine.step e.server (.loop l, .run) = some server) :
    Echoes ⟨server, Function.update e.msg l none⟩ ∧
      ∀ c, Turn e (.loop l, .returns) ⟨server, Function.update e.msg l none⟩ c := by
  obtain ⟨eff, effect, made⟩ := Option.bind_eq_some_iff.mp
    (show e.server.step (.loop l, .run) = some server from hs)
  obtain ⟨sys, -, after⟩ := Option.map_eq_some_iff.mp made
  have does := Server.effect_does effect
  obtain ⟨held, quiet⟩ := (msg ▸ inv.chunk l).sent_of stack
  have behind : server.stack (.loop l) = eff.push ++ back := by
    rw [← after]
    simp [stack]
  have bytes (p : Address) (len : Nat) : server.bytes p len = e.server.bytes p len := by
    unfold Server.bytes
    rw [← after]
    exact does.mem (by simp) ▸ rfl
  have own : ∃ held', Passes e.server (.loop l, .run) server l none none held' := by
    rw [stack] at does
    cases does with
    | returns t m =>
      refine ⟨none, .still (.outside ?_) ?_⟩
      · rw [behind]
        exact quiet
      · intro c' op here
        cases Server.change_of_opOn effect here
  rw [← held] at own
  exact turn_statement inv confined msg inputs hs (by simp) bytes own

private theorem collect_stores {κ : Type} (out : Server → Tid × Input → List κ)
    (silent : ∀ s q byte, out s (t, .call (.store q byte)) = []) (s : Server) (p : Address)
    (str : List UInt8) (rest : List (Tid × Input)) (m : Option ConnId) (behind : List Task)
    (stack : s.stack t = .user m :: behind) :
    Server.machine.collect out s ((stores p str).map (t, ·) ++ rest)
      = Server.machine.collect out (s.withMem (written s.mem p str)) rest := by
  have first : Server.machine.collect out s ((stores p str).map (t, ·)) = [] := by
    clear stack
    induction str generalizing s p with
    | nil => rfl
    | cons byte str ih =>
      simp only [stores, List.map_cons, Lib.Machine.collect, silent, List.nil_append]
      cases Server.machine.step s (t, .call (.store p byte)) with
      | none => rfl
      | some s' => exact ih s' (p + 1)
  rw [(run_stores stack p str).collect_append, first, List.nil_append]

private theorem Ends.of_stores {i : Tid × EchoInput} {m : Option ConnId} {behind : List Task}
    {str : List UInt8} {b : Input} (stack : e.server.stack i.1 = .user m :: behind)
    (inputs : e.inputs i = (stores p str).map (i.1, ·) ++ [(i.1, b)]) :
    e.Ends i (e.server.withMem (written e.server.mem p str)) (i.1, b) := by
  have silent (c : ConnId) (s : Server) (q : Address) (byte : UInt8) :=
    Server.silentOn (s := s) (c := c) (i := (i.1, .call (.store q byte))) fun op here => by
      cases effect : s.effect i.1 (.call (.store q byte)) with
      | none =>
        rw [Server.opOn, effect] at here
        cases here
      | some eff =>
        have operation := (Server.effect_does effect).operation (Server.change_of_opOn effect here)
        generalize (s.stack i.1).head? = head at operation
        cases operation
  have one {κ : Type} (out : Server → Tid × Input → List κ)
      (none : ∀ s q byte, out s (i.1, .call (.store q byte)) = []) :
      Server.machine.collect out e.server (e.inputs i)
        = out (e.server.withMem (written e.server.mem p str)) (i.1, b) := by
    rw [inputs, collect_stores out none _ p str _ m behind stack]
    exact (Lib.Machine.Run.nil (M := Server.machine)).collect_snoc out (i.1, b)
  exact ⟨fun c => one _ fun s q byte => (silent c s q byte).1,
    fun c => one _ fun s q byte => (silent c s q byte).2.1,
    fun c => one _ fun s q byte => (silent c s q byte).2.2⟩

private theorem turn_retrieve (inv : e.Echoes) (confined : e.server.Confined)
    (pool : ∀ c, e.server.Created c →
      (e.server.conn c).loop_ ≤ e.server.config.numThreads_)
    (stack : e.server.stack (.loop l) = .user (some c) :: back) (msg : e.msg l = none)
    (free : e.Free p (e.server.env c).unread.length)
    (inputs : e.inputs (.loop l, .retrieveAllAsString p)
      = (stores p (e.server.env c).unread).map (.loop l, ·)
        ++ [(.loop l, .call (.retrieve (e.server.env c).unread.length))])
    (hs : Server.machine.step
      (e.server.withMem (written e.server.mem p (e.server.env c).unread))
      (.loop l, .call (.retrieve (e.server.env c).unread.length)) = some server) :
    Echoes ⟨server, Function.update e.msg l (some ⟨p, (e.server.env c).unread.length, false⟩)⟩ ∧
      ∀ c', Turn e (.loop l, .retrieveAllAsString p)
        ⟨server, Function.update e.msg l (some ⟨p, (e.server.env c).unread.length, false⟩)⟩ c' := by
  have confined' := confined.withMem (written e.server.mem p (e.server.env c).unread)
  have sees := Server.step_sees confined' hs
  generalize hstr : (e.server.env c).unread = str at *
  obtain ⟨eff, effect, made⟩ := Option.bind_eq_some_iff.mp
    (show (e.server.withMem (written e.server.mem p str)).step
      (.loop l, .call (.retrieve str.length)) = some server from hs)
  obtain ⟨sys, loops, after⟩ := Option.map_eq_some_iff.mp made
  have does := Server.effect_does effect
  have loop : l = (e.server.conn c).loop_ := by
    have own := (confined.tasks (.loop l) (.user (some c)) (stack ▸ List.mem_cons_self)).2
    exact Tid.loop.inj own
  obtain ⟨held, quiet⟩ := (msg ▸ inv.chunk l).entered_of stack
  rw [show (e.server.withMem (written e.server.mem p str)).stack (.loop l)
    = .user (some c) :: back from stack] at does
  cases does with
  | retrieve t c' len' =>
    have opOn (c' : ConnId) := Server.opOn_of_change (c := c') effect rfl
    have behind : server.stack (.loop l) = .user (some c) :: back := by
      rw [← after]
      simp [Server.withMem, stack]
    have memory : server.mem = written e.server.mem p str := by
      rw [← after]
      rfl
    have bytes : server.bytes p str.length = str := by
      unfold Server.bytes
      rw [memory]
      exact written_inside _ _ _
    have own (l' : LoopId) (here : Tid.loop l = .loop l') : ∃ held',
        Passes (e.server.withMem (written e.server.mem p str))
          (.loop l, .call (.retrieve str.length)) server l'
          (Function.update e.msg l (some ⟨p, str.length, false⟩) l') (e.chunk l') held' := by
      cases here
      rw [Function.update_self, held, hstr]
      refine ⟨some (c, str), .still ?_ ?_⟩
      · have stage := Stage.constructed c back p str.length behind quiet
        rwa [bytes] at stage
      · intro c' op here
        rw [opOn c'] at here
        split at here
        · cases here
          exact ⟨rfl, rfl⟩
        · cases here
    refine turn inv confined hs (Ends.of_stores stack inputs) own ?_ ?_ (by simp) ?_ ?_
    · intro l' other
      refine Function.update_of_ne ?_ _ _
      rintro rfl
      exact other rfl
    · intro l' other m here
      have stage := inv.chunk l'
      rw [Option.mem_def.mp here] at stage
      obtain ⟨c', mem⟩ := stage.user_mem
      obtain ⟨known, own⟩ : e.server.Known c' ∧ Tid.loop l' = .loop (e.server.conn c').loop_ :=
        confined.tasks (.loop l') (.user (some c')) mem
      have apart := free l' (Tid.loop.inj own ▸ pool c' known.1) m here
      unfold Server.bytes
      rw [memory]
      refine List.map_congr_left fun k mem => written_outside _ ?_
      have inside := List.mem_range.mp mem
      rcases apart with below | above
      · exact .inl (Nat.lt_of_lt_of_le (Nat.add_lt_add_left inside _) below)
      · exact .inr (Nat.le_trans above (Nat.le_add_right _ _))
    · intro l' f mem
      rw [← after, Server.after_sys] at mem
      cases loops
      exact inv.work l' f mem
    · intro c' created here
      refine .inl ?_
      by_cases same : c = c'
      · subst same
        have conn : (server.env c).unread = (e.server.env c).unread.drop str.length := by
          rw [← after]
          simp [Server.env, Server.act, Server.put, ConnOp.apply, ConnEnv.unread, Server.withMem]
        rw [conn, hstr, List.drop_length]
      · have other : (e.server.withMem (written e.server.mem p str)).opOn c'
            (.loop l, .call (.retrieve str.length)) = none := (opOn c').trans (if_neg same)
        have keeps : (e.server.withMem (written e.server.mem p str)).retrievedOn c'
            (.loop l, .call (.retrieve str.length)) = [] := by
          rw [Server.retrievedOn, other]
          rfl
        have brought : (e.server.withMem (written e.server.mem p str)).receivedOn c'
            (.loop l, .call (.retrieve str.length)) = [] := by
          rw [Server.receivedOn, other]
          rfl
        have idle := ((sees c').unread keeps).resolve_right fun new => new.1 created
        rw [brought, List.append_nil] at idle
        refine idle.trans ?_
        refine (inv.unread c').resolve_right ?_
        rintro ⟨-, back', first⟩
        rw [← Tid.loop.inj here, stack] at first
        cases first
        exact same rfl

end OnMessage

variable {is : List (Tid × EchoInput)}

theorem Echoes.step (inv : e.Echoes)
    (reach : Server.machine.Reachable (Server.new config) e.server)
    (h : machine.step e i = some e') : e'.Echoes ∧ ∀ c, Turn e i e' c := by
  have confined := Server.confined reach
  cases step_does h with
  | library t a server outside silent inputs hs =>
    exact turn_library inv confined outside silent inputs hs
  | retrieveAllAsString l c back p server stack msg free inputs hs =>
    have pool (c : ConnId) (created : e.server.Created c) :
        (e.server.conn c).loop_ ≤ e.server.config.numThreads_ := by
      obtain ⟨inputs, run⟩ := reach
      exact (Server.rotates run).loop_le created
    exact turn_retrieve inv confined pool stack msg free inputs hs
  | send l c back p len r server stack msg inputs hs =>
    exact turn_send inv confined stack msg inputs hs
  | returns l c back p len server stack msg inputs hs =>
    exact turn_returns inv confined stack msg inputs hs

private theorem new_echoes (config : ServerConfig) : (new config).Echoes := by
  have quiet (t : Tid) (task : Task) (mem : task ∈ (Server.new config).stack t) :
      ¬ task.Echoes := by
    cases Server.new_stack mem with
    | user | listen base | startLoop l base => exact id
  exact ⟨fun l => ⟨none, .outside (quiet (.loop l))⟩, fun n => quiet (.user n),
    (fun _ _ mem => by cases mem), fun _ => .inl rfl⟩

/-- The books of the connection `c` after a run. -/
structure Books (config : ServerConfig) (is : List (Tid × EchoInput)) (e : EchoServer)
    (c : ConnId) : Prop where
  chunks : Server.machine.collect (Server.showsOn c) (.new config) (serverInputs config is)
    = Server.machine.collect (Server.messages c) (.new config) (serverInputs config is)
      ++ e.pending c
  received : Server.machine.collect (Server.receivedOn c) (.new config) (serverInputs config is)
    = (Server.machine.collect (Server.showsOn c) (.new config) (serverInputs config is)).flatten

theorem books (run : machine.Run (new config) is e) : e.Echoes ∧ ∀ c, Books config is e c := by
  induction run with
  | nil =>
    refine ⟨new_echoes config, fun c => ⟨?_, rfl⟩⟩
    have none : (new config).pending c = [] :=
      (new_echoes config).pending_of_unknown (Server.new_confined config)
        fun known => Nat.not_lt_of_ge known.1.1 known.1.2
    exact none.symm
  | @snoc is e e' i run hs ih =>
    obtain ⟨inv, books⟩ := ih
    have before := server_run run
    obtain ⟨after, turn⟩ := inv.step before.reachable hs
    refine ⟨after, fun c => ?_⟩
    have split : serverInputs config (is ++ [i]) = serverInputs config is ++ e.inputs i :=
      run.collect_snoc _ _
    refine ⟨?_, ?_⟩
    · rw [split, before.collect_append, before.collect_append, (books c).chunks, List.append_assoc,
        (turn c).chunk, List.append_assoc]
    · rw [split, before.collect_append, before.collect_append, (books c).received,
        (turn c).received, List.flatten_append]

private theorem pending_of_polling (run : machine.Run (new config) is e) {c : ConnId}
    (waits : (e.server.sys (e.server.conn c).loop_).loop.position = .polling) :
    e.pending c = [] := by
  have idle := Server.idle_of_polling (server_run run).reachable waits
  simp only [pending, chunk, idle, heldOf]

/-- The echo server, over all runs and for every connection: the messages that have been offered,
with the chunk that `onMessage` has not yet offered behind them, are the chunks that
`messageCallback_` was shown, one for each read, and make up the bytes that have come in; the bytes
that have gone out or wait in `outputBuffer_` are those of the messages that were taken over.
Between two visits to `epoll_wait` no chunk is left. -/
theorem echo_exact (config : ServerConfig) (is : List (Tid × EchoInput)) (e : EchoServer)
    (run : machine.Run (new config) is e) (c : ConnId) :
    Server.machine.collect (Server.showsOn c) (.new config) (serverInputs config is)
        = Server.machine.collect (Server.messages c) (.new config) (serverInputs config is)
          ++ e.pending c ∧
      Server.machine.collect (Server.receivedOn c) (.new config) (serverInputs config is)
        = (Server.machine.collect (Server.messages c) (.new config) (serverInputs config is)
          ++ e.pending c).flatten ∧
      accepted (e.server.events c) ++ (e.server.conn c).outputBuffer_.content
        = (Server.machine.collect (Server.keptMessages c) (.new config)
          (serverInputs config is)).flatten ∧
      (Server.machine.collect (Server.keptMessages c) (.new config)
          (serverInputs config is)).Sublist
        (Server.machine.collect (Server.messages c) (.new config) (serverInputs config is)) ∧
      ((e.server.sys (e.server.conn c).loop_).loop.position = .polling → e.pending c = []) := by
  have book := (books run).2 c
  refine ⟨book.chunks, ?_, (Server.delivered_run (server_run run) c).stream,
    Lib.Machine.collect_sublist (Server.keptMessages_sublist c) _ _, pending_of_polling run⟩
  rw [book.received, book.chunks]

def library (inputs : List (Tid × Input)) : List (Tid × EchoInput) :=
  inputs.map fun i => (i.1, .library i.2)

/-- `onMessage` on the thread of the sub-loop. -/
def replying (r : WriteResult) : List (Tid × EchoInput) :=
  [(.loop 1, .retrieveAllAsString 100), (.loop 1, .send r), (.loop 1, .returns)]

/-- Three bytes come in, and the kernel takes two of them back. -/
def echoing : List (Tid × EchoInput) :=
  library (Server.waiting ++ Server.reading (.got [7, 8, 9])) ++ replying (.wrote 2)

/-- A fourth comes in while the third waits. -/
def losing : List (Tid × EchoInput) :=
  echoing ++ library (Server.steps (.loop 1) 5 ++ Server.reading (.got [4])) ++ replying (.wrote 1)

theorem echo_exact_losing : ∃ e, machine.Run (new Server.oneLoop) losing e ∧
    accepted (e.server.events 1) = [7, 8] ∧ (e.server.conn 1).outputBuffer_.content = [9] ∧
    Server.machine.collect (Server.messages 1) (.new Server.oneLoop)
        (serverInputs Server.oneLoop losing) ++ e.pending 1 = [[7, 8, 9], [4]] ∧
    Server.machine.collect (Server.receivedOn 1) (.new Server.oneLoop)
        (serverInputs Server.oneLoop losing) = [7, 8, 9, 4] := by
  obtain ⟨e, run, sent, left, shown⟩ := machine.exists_run (new Server.oneLoop) losing
    (fun e => accepted (e.server.events 1) = [7, 8] ∧
      (e.server.conn 1).outputBuffer_.content = [9] ∧
      Server.machine.collect (Server.showsOn 1) (.new Server.oneLoop)
        (serverInputs Server.oneLoop losing) = [[7, 8, 9], [4]]) (by decide +kernel)
  obtain ⟨chunks, received, -⟩ := echo_exact Server.oneLoop losing e run 1
  rw [shown] at chunks
  rw [← chunks] at received
  exact ⟨e, run, sent, left, chunks.symm, received⟩

private theorem eq_of_flatten_eq {kept all : List (List UInt8)} (less : kept.Sublist all)
    (some : ∀ data ∈ all, data ≠ []) (same : kept.flatten = all.flatten) : kept = all := by
  induction less with
  | slnil => rfl
  | @cons kept all data less ih =>
    have size := less.flatten.length_le
    have missing := List.length_pos_of_ne_nil (some data List.mem_cons_self)
    rw [same, List.flatten_cons, List.length_append] at size
    omega
  | @cons_cons kept all data less ih =>
    rw [List.flatten_cons, List.flatten_cons, List.append_right_inj] at same
    rw [ih (fun other mem => some other (List.mem_cons_of_mem _ mem)) same]

private theorem shows_some (c : ConnId) (s : Server) (inputs : List (Tid × Input)) :
    ∀ data ∈ Server.machine.collect (Server.showsOn c) s inputs, data ≠ [] := by
  induction inputs generalizing s with
  | nil =>
    intro data mem
    cases mem
  | cons i inputs ih =>
    intro data mem
    rcases List.mem_append.mp mem with here | later
    · unfold Server.showsOn at here
      split at here
      · cases here
      · rename_i brought
        rw [List.mem_singleton.mp here]
        exact fun none => brought (List.append_eq_nil_iff.mp none).2
    · cases hs : Server.machine.step s i with
      | none =>
        rw [hs] at later
        cases later
      | some s' =>
        rw [hs] at later
        exact ih s' data later

/-- An echoed byte is lost exactly when a `send` finds bytes waiting or fails: the bytes that have
gone out, those that wait and those of the pending chunk are all that came in if and only if every
execution of `sendInLoop` has taken its message over. -/
theorem echo_lossless_iff (config : ServerConfig) (is : List (Tid × EchoInput)) (e : EchoServer)
    (run : machine.Run (new config) is e) (c : ConnId) :
    accepted (e.server.events c) ++ (e.server.conn c).outputBuffer_.content ++ (e.pending c).flatten
        = Server.machine.collect (Server.receivedOn c) (.new config) (serverInputs config is) ↔
      Server.machine.StepsMeet (fun s i => s.keptMessages c i = s.messages c i) (.new config)
        (serverInputs config is) := by
  have book := (books run).2 c
  have stream := (Server.delivered_run (server_run run) c).stream
  rw [← (server_run run).collect_eq_iff (Server.keptMessages_sublist c), book.received, book.chunks,
    List.flatten_append, List.append_left_inj]
  have less := Lib.Machine.collect_sublist (M := Server.machine) (Server.keptMessages_sublist c)
    (.new config) (serverInputs config is)
  have some : ∀ data ∈
      Server.machine.collect (Server.messages c) (.new config) (serverInputs config is),
      data ≠ [] :=
    fun data mem => shows_some c _ _ data (book.chunks ▸ List.mem_append_left _ mem)
  have stream : accepted (e.server.events c) ++ (e.server.conn c).outputBuffer_.content
      = _ := stream
  rw [stream]
  constructor
  · exact eq_of_flatten_eq less some
  · exact congrArg List.flatten

/-- The fourth byte is lost: its `send` finds the third one waiting. -/
theorem echo_lossless_iff_losing : ∃ e, machine.Run (new Server.oneLoop) losing e ∧
    ¬ Server.machine.StepsMeet (fun s i => s.keptMessages 1 i = s.messages 1 i)
      (.new Server.oneLoop) (serverInputs Server.oneLoop losing) := by
  obtain ⟨e, run, lost⟩ := machine.exists_run (new Server.oneLoop) losing
    (fun e => accepted (e.server.events 1) ++ (e.server.conn 1).outputBuffer_.content ++
        (e.pending 1).flatten
      ≠ Server.machine.collect (Server.receivedOn 1) (.new Server.oneLoop)
        (serverInputs Server.oneLoop losing)) (by decide +kernel)
  exact ⟨e, run, fun meets => lost ((echo_lossless_iff Server.oneLoop losing e run 1).mpr meets)⟩

end EchoServer

end TcpMuduo
