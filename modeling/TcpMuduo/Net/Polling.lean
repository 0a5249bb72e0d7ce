import TcpMuduo.Net.Lifetime
import TcpMuduo.Net.Poll
import TcpMuduo.Net.Removal

/-!
From `epoll_wait` to the handlers, in the whole server: `EpollPoller::poll` on
its array takes the step that the loops of the server take, and each event it
reports is handled once before the loop waits again.
-/

set_option autoImplicit false
set_option relaxedAutoImplicit false

namespace TcpMuduo

namespace Channel

variable {ι : Type} {self : ι} {p : EpollPoller ι} {ch : Channel} {refused : Bool}

private theorem apply_revents (op : ChannelOp) :
    (op.apply self p ch refused).2.revents_ = ch.revents_ := by
  have update (events : EventMask) :
      (ch.withEvents self events p refused).2.revents_ = ch.revents_ := by
    simp only [withEvents, EpollPoller.updateChannel]
    split
    · rfl
    · split <;> rfl
  by_cases stays : op = .remove
  · rw [stays]
    rfl
  · rw [apply_eq op stays]
    exact update _

end Channel

private theorem ConnOp.revents_apply (op : ConnOp) (c : ConnId) (e : ConnEnv) :
    (op.apply c e).conn.channel_.revents_ = e.conn.channel_.revents_ := by
  cases (op.spec c e).registers with
  | same channel poller => rw [channel]
  | op chop tied mem channel poller =>
    rw [channel]
    exact Channel.apply_revents chop

section

variable {T F H : Type}

/-- The channels of the batch whose turn has not come yet. -/
def Position.unhandled : Position F H → List H
  | .dispatching rest => rest
  | .handling _ rest => rest
  | _ => []

private theorem Position.mem_unhandled {p : Position F H} {channel : H}
    (mem : channel ∈ p.unhandled) :
    channel ∈ p.channels := by
  cases p with
  | dispatching rest => exact mem
  | handling first rest => exact List.mem_cons_of_mem _ mem
  | _ => cases mem

namespace LoopSystem

variable [DecidableEq T] [DecidableEq H] {startup : Bool} {s s' : LoopSystem T F H}
variable {input : LoopInput T F H}

/-- The channel whose turn a step begins. -/
def handles (s : LoopSystem T F H) (input : LoopInput T F H) : List H :=
  match s.loop.position, input with
  | .dispatching (channel :: _), .advance _ => [channel]
  | _, _ => []

private theorem step_report {active : List H}
    (h : (machine startup).step s (.advance active) = some s')
    (waits : s.loop.position = .polling) :
    s.loop.Ready active ∧ s'.loop.position = .dispatching active := by
  cases step_steps h with
  | advance active loop free moves =>
    cases moves with
    | report here ready => exact ⟨ready, rfl⟩
    | enter here | reset here | stop here quit | wait here quit | begin here | drain rest here
    | handle channel rest here distinct | handled channel rest here | swap here
    | call functor rest here | called functor rest here | finish here =>
      rw [waits] at here
      cases here

/-- The channels of a batch are handled from the first one on, until the next visit to
`epoll_wait`. -/
theorem step_unhandled (h : (machine startup).step s input = some s')
    (busy : s.visits input = []) :
    s.loop.position.unhandled = s.handles input ++ s'.loop.position.unhandled := by
  rcases step_moves h with ⟨active, loop, rfl, rfl, moves⟩ | ⟨other, position, -⟩
  · cases moves with
    | report here ready => simp [visits, here] at busy
    | enter here | reset here | stop here quit | wait here quit | begin here | drain rest here
    | handle channel rest here distinct | handled channel rest here | swap here
    | call functor rest here | called functor rest here | finish here =>
      simp [handles, here, Position.unhandled]
  · have none : s.handles input = [] := by
      unfold handles
      split
      · exact absurd rfl (other _)
      · rfl
    rw [position, none, List.nil_append]

end LoopSystem

end

namespace Server

variable {s s' m : Server} {t : Tid} {i : Tid × Input} {input : Input} {eff : Effect}
variable {config : ServerConfig} {sys : LoopId → LoopSystem Tid Functor ChannelRef} {l : LoopId}
variable {inputs later : List (Tid × Input)} {active : List (ChannelRef × EventMask)}
variable {ref : ChannelRef}

/-- The event in `revents_`. The wakeup channel is read by the loop, whatever it was told. -/
def revents (s : Server) : ChannelRef → List (ChannelRef × EventMask)
  | .wakeup => []
  | .acceptor => [(.acceptor, s.acceptChannel_.revents_)]
  | .conn c => [(.conn c, (s.conn c).channel_.revents_)]

/-- The channel whose handling begins in a step of the loop `l`. -/
def begunOn (l : LoopId) (s : Server) (i : Tid × Input) : List ChannelRef :=
  (s.inputOf l i).flatMap (s.sys l).handles

/-- The event whose handling begins in a step of the loop `l`. -/
def handledOn (l : LoopId) (s : Server) (i : Tid × Input) : List (ChannelRef × EventMask) :=
  (s.begunOn l i).flatMap s.revents

theorem Does.fills {head : Option Task} (does : Does s t head input eff)
    (h : eff.change = .fillActiveChannels active) :
    ∃ l, t = .loop l ∧ input = .poll active ∧ s.Reports l active = true := by
  cases does <;> cases h
  rename_i l here reports
  exact ⟨l, rfl, rfl, reports⟩

private theorem fillActiveChannels_revents (ref : ChannelRef) :
    (s.fillActiveChannels active).revents ref
      = match active.lookup ref with
        | some revents => if ref = .wakeup then [] else [(ref, revents)]
        | none => s.revents ref := by
  cases ref with
  | wakeup => cases active.lookup .wakeup <;> rfl
  | acceptor =>
    simp only [revents, fillActiveChannels]
    cases active.lookup .acceptor <;> rfl
  | conn c =>
    simp only [revents, fillActiveChannels]
    cases active.lookup (.conn c) <;> rfl

theorem At.unique {l' : LoopId} (here : ref.At s l) (there : ref.At s l')
    (other : ref ≠ .wakeup) : l = l' := by
  cases ref with
  | wakeup => exact absurd rfl other
  | acceptor => exact Eq.trans here (Eq.symm there)
  | conn c => exact here.2.trans there.2.symm

/-- Between two visits of a loop to `epoll_wait` no thread changes what its channels were told. -/
theorem revents_kept (reach : machine.Reachable (Server.new config) s)
    (h : machine.step s i = some s') (own : ref.At s l)
    (busy : ∀ events, i ≠ (.loop l, .poll events)) : s'.revents ref = s.revents ref := by
  obtain ⟨t, input⟩ := i
  obtain ⟨eff, sys, does, -, rfl⟩ := step_does h
  have confined := confined reach
  change (s.act eff.change).revents ref = s.revents ref
  cases change : eff.change with
  | fillActiveChannels events =>
    obtain ⟨l', rfl, rfl, reports⟩ := does.fills change
    by_cases wakeup : ref = .wakeup
    · subst wakeup
      rfl
    · have none : events.lookup ref = none := by
        rw [List.lookup_eq_none_iff]
        rintro event mem
        rw [bne_iff_ne]
        rintro rfl
        have there := confined.reported reports (List.mem_map_of_mem mem)
        exact busy events (congrArg (fun l => (Tid.loop l, Input.poll events))
          (At.unique there own wakeup))
      exact (fillActiveChannels_revents ref).trans (by rw [none])
  | conn c op =>
    cases ref with
    | wakeup | acceptor => rfl
    | conn c' =>
      by_cases same : c' = c
      · subst same
        have kept := op.revents_apply c' (s.env c')
        have whole : (s.act (.conn c' op)).conn c' = (op.apply c' (s.env c')).conn :=
          Function.update_self ..
        simp only [revents, whole, kept]
        rfl
      · simp [revents, act, put, same]
  | newConnection connfd =>
    cases ref with
    | wakeup | acceptor => rfl
    | conn c =>
      have old : c ≠ s.nextConnId_ := Nat.ne_of_lt own.1.1.2
      simp [revents, act, newConnection, old]
  | acceptor op =>
    cases ref with
    | wakeup | conn c => rfl
    | acceptor => simp [revents, act, Channel.apply_revents]
  | nothing | erase c | store p byte | destroy => cases ref <;> rfl

/-- What a return from `epoll_wait` does: the loop is to dispatch the reported channels, which
differ and have been told of their events. -/
structure Polled (s : Server) (l : LoopId) (active : List (ChannelRef × EventMask))
    (m : Server) : Prop where
  waits : (s.sys l).loop.position = .polling
  reports : s.Reports l active = true
  nodup : (active.map Prod.fst).Nodup
  counter : .wakeup ∈ active.map Prod.fst → (s.sys l).loop.wakeupFd_ ≠ 0
  position : (m.sys l).loop.position = .dispatching (active.map Prod.fst)
  poller : m.poller = s.poller
  conn : m.conn = (s.fillActiveChannels active).conn
  acceptor : m.acceptChannel_ = (s.fillActiveChannels active).acceptChannel_

theorem step_polled (reach : machine.Reachable (Server.new config) s)
    (h : machine.step s (.loop l, .poll active) = some m) : s.Polled l active m := by
  obtain ⟨eff, sys, does, loops, rfl⟩ := step_does h
  generalize (s.stack (.loop l)).head? = head at does
  cases does with
  | poll l active waits reports =>
    rcases loopStep_at loops l with ⟨-, other⟩ | ⟨i, here, step⟩
    · exact absurd rfl (other _)
    · cases here
      obtain ⟨ready, position⟩ := LoopSystem.step_report step waits
      have counter := ready.2
      rw [wakeupChannel_eq reach] at counter
      exact ⟨waits, reports, ready.1, counter, by rw [after_sys, position], rfl, rfl, rfl⟩

theorem Polled.told (polled : s.Polled l active m) {event : ChannelRef × EventMask}
    (mem : event ∈ active) :
    m.revents event.1 = if event.1 = .wakeup then [] else [event] := by
  obtain ⟨ref, mask⟩ := event
  have found : active.lookup ref = some mask := by
    obtain ⟨first, rest, rfl⟩ := List.append_of_mem mem
    refine List.lookup_eq_some_iff.mpr ⟨first, rest, rfl, ?_⟩
    rintro event earlier
    rw [bne_iff_ne]
    rintro rfl
    have nodup := polled.nodup
    rw [List.map_append, List.nodup_append] at nodup
    exact nodup.2.2 _ (List.mem_map_of_mem earlier) _ List.mem_cons_self rfl
  have filled : m.revents ref = (s.fillActiveChannels active).revents ref := by
    cases ref with
    | wakeup => rfl
    | acceptor => rw [revents, polled.acceptor, revents]
    | conn c => rw [revents, polled.conn, revents]
  rw [filled, fillActiveChannels_revents, found]

theorem Polled.unhandled (polled : s.Polled l active m) :
    (m.sys l).loop.position.unhandled.flatMap m.revents
      = active.filter fun event => event.1 ≠ .wakeup := by
  have each (events : List (ChannelRef × EventMask)) (all : ∀ event ∈ events, event ∈ active) :
      events.flatMap (fun event => m.revents event.1)
        = events.filter fun event => event.1 ≠ .wakeup := by
    induction events with
    | nil => rfl
    | cons event events ih =>
      rw [List.flatMap_cons, ih fun other mem => all other (List.mem_cons_of_mem _ mem),
        polled.told (all event List.mem_cons_self), List.filter_cons]
      by_cases wakeup : event.1 = .wakeup
      · simp [wakeup]
      · simp [wakeup]
  rw [polled.position, Position.unhandled, List.flatMap_map]
  exact each active fun _ mem => mem

theorem Does.visits {head : Option Task} {channels : List ChannelRef}
    (does : Does s t head input eff) (h : eff.loop = some (l, .advance channels))
    (waits : (s.sys l).loop.position = .polling) :
    ∃ events, t = .loop l ∧ input = .poll events := by
  cases does with
  | poll l' events here reports =>
    cases h
    exact ⟨events, rfl, rfl⟩
  | dispatch l' channel rest here =>
    cases h
    rw [here] at waits
    cases waits
  | call l' f rest here =>
    cases h
    rw [here] at waits
    cases waits
  | turn l' waits' active batch =>
    cases h
    exact absurd waits waits'
  | _ => cases h

private theorem step_on (h : machine.step s i = some s')
    (busy : ∀ events, i ≠ (.loop l, .poll events)) :
    s.inputOf l i = [] ∧ s'.sys l = s.sys l ∨
      ∃ input, s.inputOf l i = [input] ∧ (s.sys l).visits input = [] ∧
        (LoopSystem.machine true).step (s.sys l) input = some (s'.sys l) := by
  obtain ⟨eff, sys, effect, loops, rfl⟩ := step_effect h
  rw [after_sys]
  rcases loopStep_at loops l with ⟨same, other⟩ | ⟨input, here, step⟩
  · exact .inl ⟨inputOf_eq_nil effect other, same⟩
  · refine .inr ⟨input, inputOf_eq_singleton effect here, ?_, step⟩
    unfold LoopSystem.visits
    split
    · rename_i waits
      obtain ⟨t, a⟩ := i
      obtain ⟨events, rfl, rfl⟩ := (effect_does effect).visits here waits
      exact absurd rfl (busy events)
    · rfl

private theorem begunOn_step (h : machine.step s i = some s')
    (busy : ∀ events, i ≠ (.loop l, .poll events)) :
    (s.sys l).loop.position.unhandled
      = s.begunOn l i ++ (s'.sys l).loop.position.unhandled := by
  unfold begunOn
  rcases step_on h busy with ⟨none, same⟩ | ⟨input, one, quiet, step⟩
  · rw [none, same]
    rfl
  · rw [one, List.flatMap_singleton]
    exact LoopSystem.step_unhandled step quiet

private theorem handledOn_step (reach : machine.Reachable (Server.new config) s)
    (h : machine.step s i = some s') (busy : ∀ events, i ≠ (.loop l, .poll events)) :
    (s.sys l).loop.position.unhandled.flatMap s.revents
      = s.handledOn l i ++ (s'.sys l).loop.position.unhandled.flatMap s'.revents := by
  have split := begunOn_step h busy
  have kept : (s'.sys l).loop.position.unhandled.flatMap s'.revents
      = (s'.sys l).loop.position.unhandled.flatMap s.revents := by
    refine List.flatMap_congr fun ref mem => ?_
    have waiting : ref ∈ (s.sys l).loop.position.unhandled :=
      split ▸ List.mem_append_right _ mem
    exact revents_kept reach h
      ((confined reach).channels l ref (Position.mem_unhandled waiting)) busy
  rw [kept, handledOn, ← List.flatMap_append, ← split]

/-- No event is lost, repeated or overtaken: from a return of a loop from `epoll_wait` on, until it
waits again, the channels whose handling has begun and those that are still to be handled are the
reported ones in their order, the loop's own eventfd included. Their events, all but those of the
eventfd, whose handler asks for none, are the reported ones with the masks that `poll` has read
from its array, whatever the handlers and the other threads do; behind the dispatch all have been
handled. -/
theorem dispatch_exact (config : ServerConfig) (before : List (Tid × Input)) (s : Server)
    (run : machine.Run (Server.new config) before s) (l : LoopId)
    (active : List (ChannelRef × EventMask)) (m : Server)
    (polled : machine.step s (.loop l, .poll active) = some m)
    (later : List (Tid × Input)) (s' : Server) (rest : machine.Run m later s')
    (round : ∀ events, (.loop l, .poll events) ∉ later) :
    active.map Prod.fst
        = machine.collect (begunOn l) m later ++ (s'.sys l).loop.position.unhandled ∧
      (active.filter fun event => event.1 ≠ .wakeup)
        = machine.collect (handledOn l) m later
          ++ (s'.sys l).loop.position.unhandled.flatMap s'.revents ∧
      ((s'.sys l).loop.position.channels = [] →
        active.map Prod.fst = machine.collect (begunOn l) m later ∧
        (active.filter fun event => event.1 ≠ .wakeup)
          = machine.collect (handledOn l) m later) := by
  have first := run.snoc polled
  have reported := step_polled run.reachable polled
  have exact : active.map Prod.fst
        = machine.collect (begunOn l) m later ++ (s'.sys l).loop.position.unhandled ∧
      (active.filter fun event => event.1 ≠ .wakeup)
        = machine.collect (handledOn l) m later
          ++ (s'.sys l).loop.position.unhandled.flatMap s'.revents := by
    induction rest with
    | nil => exact ⟨by rw [reported.position]; rfl, reported.unhandled.symm⟩
    | @snoc later s' s'' i rest hs ih =>
      obtain ⟨channels, events⟩ := ih fun events mem => round events (List.mem_append_left _ mem)
      have busy : ∀ events, i ≠ (.loop l, .poll events) := fun events here =>
        round events (here ▸ List.mem_append_right _ List.mem_cons_self)
      have begun := begunOn_step (l := l) hs busy
      have handled := handledOn_step (l := l) (first.append rest).reachable hs busy
      rw [rest.collect_snoc, rest.collect_snoc, List.append_assoc, List.append_assoc, ← begun,
        ← handled]
      exact ⟨channels, events⟩
  refine ⟨exact.1, exact.2, ?_⟩
  intro none
  have done : (s'.sys l).loop.position.unhandled = [] := by
    refine List.eq_nil_iff_forall_not_mem.mpr fun ref mem => ?_
    have waiting := Position.mem_unhandled mem
    rw [none] at waiting
    cases waiting
  rw [done, List.flatMap_nil, List.append_nil, List.append_nil] at exact
  exact exact

/-- The base loop of a server without sub-loops waits with a connection. -/
def waitingAlone : List (Tid × Input) :=
  steps (.loop 0) 6 ++ [(.loop 0, .poll [(.acceptor, EPOLLIN)]), (.loop 0, .run),
    (.loop 0, .accept (some 9))] ++ steps (.loop 0) 7

/-- The connection and the listening socket are ready at once. -/
def bothReady : List (ChannelRef × EventMask) := [(.conn 1, EPOLLIN), (.acceptor, EPOLLIN)]

/-- And a thread has queued a functor. -/
def allReady : List (ChannelRef × EventMask) := bothReady ++ [(.wakeup, EPOLLIN)]

def waitingQueued : List (Tid × Input) :=
  waitingAlone ++ [(.user 0, .call (.queueInLoop 0))] ++ steps (.user 0) 2

/-- A byte comes in on the connection, another connection is accepted, and the counter is read. -/
def handlingAll : List (Tid × Input) :=
  [(.loop 0, .run), (.loop 0, .read (.got [1]))] ++ steps (.loop 0) 3 ++
    [(.loop 0, .accept (some 10))] ++ steps (.loop 0) 5

theorem dispatch_exact_all : ∃ s m s', machine.Run (Server.new noLoops) waitingQueued s ∧
    machine.step s (.loop 0, .poll allReady) = some m ∧ machine.Run m handlingAll s' ∧
    (s'.sys 0).loop.position = .draining ∧
    machine.collect (begunOn 0) m handlingAll = [.conn 1, .acceptor, .wakeup] ∧
    machine.collect (handledOn 0) m handlingAll = bothReady := by
  obtain ⟨s', run, drains⟩ := machine.exists_run (.new noLoops)
    (waitingQueued ++ [(.loop 0, .poll allReady)] ++ handlingAll)
    (fun s => (s.sys 0).loop.position = .draining) (by decide +kernel)
  obtain ⟨m, first, rest⟩ := run.split
  obtain ⟨s, start, polled⟩ := Lib.Machine.run_snoc_iff.mp first
  obtain ⟨channels, events⟩ := (dispatch_exact noLoops waitingQueued s start 0 allReady m polled
    handlingAll s' rest (by simp [handlingAll, steps])).2.2 (drains ▸ rfl)
  exact ⟨s, m, s', start, polled, rest, drains, channels.symm, events.symm⟩

end Server

end TcpMuduo
