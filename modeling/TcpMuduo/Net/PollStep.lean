import TcpMuduo.Net.Polling
import TcpMuduo.Net.Progress

/-!
`EpollPoller::poll` in the server: what the loop over the array `events_` does
to the channels of a loop is the step that the loop takes when `epoll_wait`
returns, whatever the kernel answers and whatever the array has kept.
-/

set_option autoImplicit false
set_option relaxedAutoImplicit false

namespace TcpMuduo

private theorem PollLoop.foldl_activate_channel {ι : Type} [DecidableEq ι] {s : PollLoop ι}
    {events : List (EpollEvent ι)} (nodup : (events.map EpollEvent.ptr).Nodup) (i : ι) :
    (events.foldl activate s).registry.channel i
      = match (events.map fun event => (event.ptr, event.events)).lookup i with
        | some revents => { s.registry.channel i with revents_ := revents }
        | none => s.registry.channel i := by
  induction events generalizing s with
  | nil => rfl
  | cons event events ih =>
    obtain ⟨once, nodup⟩ := List.nodup_cons.mp nodup
    rw [List.foldl_cons, List.map_cons, List.lookup_cons]
    by_cases same : i = event.ptr
    · subst same
      rw [foldl_activate_of_notMem once]
      simp [activate, Registry.set_revents]
    · rw [ih nodup, beq_eq_false_iff_ne.mpr same]
      simp [activate, Registry.set_revents, same]

namespace Server

variable {s m : Server} {l : LoopId} {n : Nat} {config : ServerConfig}
variable {active : List (ChannelRef × EventMask)} {r : WaitResult ChannelRef}

/-- What the thread of the loop `l` works on in `poll`: its poller with the array as earlier calls
have left it, and the channels, the wakeup channel among them. -/
def pollLoop (s : Server) (l : LoopId) (wakeupChannel : Channel)
    (events_ : List (Option (EpollEvent ChannelRef))) : PollLoop ChannelRef where
  registry.channel
    | .wakeup => wakeupChannel
    | .acceptor => s.acceptChannel_
    | .conn c => (s.conn c).channel_
  registry.poller := s.poller l
  events_ := events_
  activeChannels_ := []

/-- What `epoll_wait` may answer: an error, or for different descriptors some of the events that
it watches for. The eventfd is ready when its counter is not zero. -/
def Answers (s : Server) (l : LoopId) (maxevents : Nat) : WaitResult ChannelRef → Prop
  | .failed _ => True
  | .got reported => reported.length ≤ maxevents ∧ (reported.map Prod.fst).Nodup ∧
      ∀ event ∈ reported,
        MayReport ((s.poller l).interest event.1) event.2.ptr event.2.events = true ∧
          (event.2.ptr = .wakeup → (s.sys l).loop.wakeupFd_ ≠ 0)

instance (s : Server) (l : LoopId) (maxevents : Nat) (r : WaitResult ChannelRef) :
    Decidable (s.Answers l maxevents r) :=
  match r with
  | .failed _ => inferInstanceAs (Decidable True)
  | .got _ => inferInstanceAs (Decidable (_ ∧ _ ∧ _))

/-- The reported channels with their masks. -/
def reported (r : WaitResult ChannelRef) : List (ChannelRef × EventMask) :=
  r.stored.map fun event => (event.ptr, event.events)

/-- The server and the state of `poll` agree. -/
structure Agree (m : Server) (l : LoopId) (p : PollLoop ChannelRef) : Prop where
  position : (m.sys l).loop.position = .dispatching p.activeChannels_
  poller : m.poller l = p.registry.poller
  acceptor : m.acceptChannel_ = p.registry.channel .acceptor
  conn : ∀ c, (m.conn c).channel_ = p.registry.channel (.conn c)

private theorem fd_of_mayReport (reach : machine.Reachable (Server.new config) s) {ref : ChannelRef}
    {mask : EventMask} (may : MayReport ((s.poller l).interest n) ref mask = true) :
    n = s.fd l ref := by
  obtain ⟨watched, entry⟩ := MayReport.own may
  exact ((placed reach).named l n ref (.inr ⟨watched, entry⟩)).2

theorem Answers.fits {maxevents : Nat} (answers : s.Answers l maxevents r) :
    r.Fits (s.poller l).interest maxevents := by
  cases r with
  | failed e => trivial
  | got events =>
    obtain ⟨room, once, all⟩ := answers
    refine ⟨room, once, fun event mem => ?_⟩
    obtain ⟨watched, entry⟩ := MayReport.own (all event mem).1
    rw [entry]
    rfl

theorem Answers.nodup (reach : machine.Reachable (Server.new config) s) {maxevents : Nat}
    (answers : s.Answers l maxevents r) : (r.stored.map EpollEvent.ptr).Nodup := by
  cases r with
  | failed e => exact List.nodup_nil
  | got events =>
    obtain ⟨-, once, all⟩ := answers
    have own : events.map Prod.fst = (events.map (·.2.ptr)).map (s.fd l) := by
      rw [List.map_map]
      exact List.map_congr_left fun event mem => fd_of_mayReport reach (all event mem).1
    rw [own] at once
    rw [WaitResult.stored, List.map_map]
    exact once.of_map _

theorem Answers.reports (reach : machine.Reachable (Server.new config) s) {maxevents : Nat}
    (answers : s.Answers l maxevents r) : s.Reports l (reported r) = true := by
  refine List.all_eq_true.mpr fun event listed => ?_
  obtain ⟨stored, mem, rfl⟩ := List.mem_map.mp listed
  cases r with
  | failed e => cases mem
  | got events =>
    obtain ⟨⟨n, mask, ptr⟩, there, rfl⟩ := List.mem_map.mp mem
    have may := (answers.2.2 _ there).1
    dsimp only at may
    have fd := fd_of_mayReport reach may
    subst fd
    cases ptr with
    | wakeup => rfl
    | acceptor | conn c => exact may

private theorem step_answers (reach : machine.Reachable (Server.new config) s)
    (made : l ≤ config.numThreads_) (waits : (s.sys l).loop.position = .polling) {maxevents : Nat}
    (answers : s.Answers l maxevents r) :
    ∃ m, machine.step s (.loop l, .poll (reported r)) = some m := by
  have idle := idle_of_polling reach waits
  have made : l ≤ s.config.numThreads_ := reachable_config reach ▸ made
  have thread := LoopSystem.threadId_eq (loops_reachable reach l)
  have outside := outside_of_idle reach idle l
  have ready : (s.sys l).loop.Ready ((reported r).map Prod.fst) := by
    refine ⟨?_, ?_⟩
    · rw [reported, List.map_map]
      exact answers.nodup reach
    · rw [wakeupChannel_eq reach]
      intro listed
      cases r with
      | failed e => cases listed
      | got events =>
        obtain ⟨event, mem, same⟩ := List.mem_map.mp listed
        obtain ⟨stored, there, rfl⟩ := List.mem_map.mp mem
        obtain ⟨answer, told, rfl⟩ := List.mem_map.mp there
        exact (answers.2.2 answer told).2 same
  have effect : s.effect (.loop l) (.poll (reported r))
      = some { loop := some (l, .advance ((reported r).map Prod.fst)),
               change := .fillActiveChannels (reported r) } := by
    simp [Server.effect, idle, loopEffect, made, waits, answers.reports reach]
  have takes : (LoopSystem.machine true).step (s.sys l) (.advance ((reported r).map Prod.fst))
      = some { s.sys l with
          loop := { (s.sys l).loop with
            position := .dispatching ((reported r).map Prod.fst) } } := by
    simp [LoopSystem.machine, LoopSystem.step, thread, outside, EventLoop.advance, waits, ready]
  exact ⟨_, by simp [machine, Server.step, effect, loopStep, takes]; rfl⟩

/-- The step of the server and the loop over the array agree, whatever the array has kept. -/
theorem Polled.agree (polled : s.Polled l (reported r) m)
    (nodup : (r.stored.map EpollEvent.ptr).Nodup) (wakeupChannel : Channel)
    (events_ : List (Option (EpollEvent ChannelRef))) (room : r.stored.length ≤ events_.length) :
    ∃ p, (s.pollLoop l wakeupChannel events_).poll r = some p ∧ m.Agree l p := by
  obtain ⟨array, poll, -⟩ :=
    PollLoop.poll_eq (s := s.pollLoop l wakeupChannel events_) (r := r) room
  have channel := PollLoop.foldl_activate_channel
    (s := (s.pollLoop l wakeupChannel events_).epoll_wait r) nodup
  refine ⟨_, poll, ?_, ?_, ?_, ?_⟩
  · rw [polled.position]
    dsimp only
    rw [PollLoop.foldl_activate_activeChannels, reported, List.map_map]
    rfl
  · dsimp only
    rw [polled.poller, PollLoop.foldl_activate_poller]
    rfl
  · dsimp only
    rw [polled.acceptor, channel]
    rfl
  · intro c
    dsimp only
    rw [polled.conn, channel]
    rfl

/-- No change touches what the kernel watches at a reserved descriptor. -/
theorem Registered.watched (inv : s.Registered) (reserved : s.Reserved n) (change : Change)
    (created : ∀ c op, change = .conn c op → s.Created c) (l : LoopId) :
    ((s.act change).poller l).interest n = (s.poller l).interest n := by
  cases change with
  | conn c op =>
    have known := created c op rfl
    have clean := ((op.spec c (s.env c)).registers.agrees (inv.conns c known)).2
    simp only [Server.act, put, Function.update_apply]
    split
    · rename_i own
      exact own ▸ clean.same.kernel n (reserved.conns c known).symm
    · rfl
  | acceptor op =>
    have clean := (op.spec inv.acceptor).2
    simp only [Server.act, Function.update_apply]
    split
    · rename_i base
      exact base ▸ clean.same.kernel n reserved.acceptor.symm
    · rfl
  | nothing | fillActiveChannels active | newConnection connfd | erase c | store p byte
  | destroy =>
    rfl

private theorem wakeup_watched (h : machine.Reachable (Server.new config) s)
    (made : l ≤ config.numThreads_) :
    (s.poller l).interest (config.wakeupFd_ l) = some (Channel.kReadEvent, .wakeup) := by
  refine h.invariant (I := fun s => (s.poller l).interest (config.wakeupFd_ l)
    = some (Channel.kReadEvent, .wakeup)) ?_ ?_
  · simp only [Server.new, if_pos made, newPoller_eq, Function.update_self]
  · intro m i m' reach inv hs
    obtain ⟨eff, sys, does, -, rfl⟩ := step_does (t := i.1) (a := i.2) hs
    have kept := (registered reach).watched (wakeup_listed reach made).1 eff.change
      (fun c op here => ((confined reach).operates does here).1) l
    rw [after_poller, kept]
    exact inv

/-- An answer that reports the channels of a batch. The eventfd is readable, whatever mask the
batch has for it. -/
def answer (s : Server) (l : LoopId) (active : List (ChannelRef × EventMask)) :
    WaitResult ChannelRef :=
  .got (active.map fun event =>
    (s.fd l event.1, ⟨if event.1 = .wakeup then EPOLLIN else event.2, event.1⟩))

private theorem Polled.answers (reach : machine.Reachable (Server.new config) s)
    (made : l ≤ config.numThreads_) (polled : s.Polled l active m) :
    s.Answers l active.length (s.answer l active) := by
  have config := reachable_config reach
  subst config
  have may (event : ChannelRef × EventMask) (mem : event ∈ active) :
      MayReport ((s.poller l).interest (s.fd l event.1)) event.1
        (if event.1 = .wakeup then EPOLLIN else event.2) = true := by
    have reports := List.all_eq_true.mp polled.reports event mem
    obtain ⟨ref, mask⟩ := event
    cases ref with
    | wakeup =>
      have readable : MayReport (some (Channel.kReadEvent, .wakeup)) .wakeup EPOLLIN = true := by
        decide
      rw [← wakeup_watched reach made] at readable
      exact readable
    | acceptor | conn c => exact reports
  refine ⟨by simp, ?_, ?_⟩
  · -- the kernel has one pointer at each descriptor
    have own (ref : ChannelRef) (mem : ref ∈ active.map Prod.fst) :
        ∃ mask, (s.poller l).interest (s.fd l ref) = some (mask, ref) := by
      obtain ⟨event, listed, rfl⟩ := List.mem_map.mp mem
      exact MayReport.own (may event listed)
    have fds : (active.map fun event => (s.fd l event.1,
        (⟨if event.1 = .wakeup then EPOLLIN else event.2, event.1⟩ : EpollEvent ChannelRef))).map
          Prod.fst = (active.map Prod.fst).map (s.fd l) := by
      simp
    rw [fds]
    refine polled.nodup.map_on fun ref mem ref' mem' same => ?_
    obtain ⟨mask, entry⟩ := own ref mem
    obtain ⟨mask', entry'⟩ := own ref' mem'
    rw [same, entry'] at entry
    cases entry
    rfl
  · intro answer mem
    obtain ⟨event, listed, rfl⟩ := List.mem_map.mp mem
    refine ⟨may event listed, fun wakeup => ?_⟩
    exact polled.counter (wakeup ▸ List.mem_map_of_mem listed)

private theorem reported_answer : reported (s.answer l active)
    = active.map fun event => (event.1, if event.1 = .wakeup then EPOLLIN else event.2) := by
  simp [reported, answer, WaitResult.stored]

private theorem fillActiveChannels_answer :
    s.fillActiveChannels (reported (s.answer l active)) = s.fillActiveChannels active := by
  have look (ref : ChannelRef) (other : ref ≠ .wakeup) :
      (reported (s.answer l active)).lookup ref = active.lookup ref := by
    rw [reported_answer]
    induction active with
    | nil => rfl
    | cons event active ih =>
      rw [List.map_cons, List.lookup_cons, List.lookup_cons, ih]
      by_cases same : ref = event.1
      · simp [same, same ▸ other]
      · rw [beq_eq_false_iff_ne.mpr same]
  have acceptor := look .acceptor (by simp)
  have conn (c : ConnId) := look (.conn c) (by simp)
  simp only [fillActiveChannels, acceptor, conn]

private theorem step_poll_congr {active' : List (ChannelRef × EventMask)} {m' : Server}
    (channels : active'.map Prod.fst = active.map Prod.fst)
    (fills : s.fillActiveChannels active' = s.fillActiveChannels active)
    (h : machine.step s (.loop l, .poll active) = some m)
    (h' : machine.step s (.loop l, .poll active') = some m') : m' = m := by
  have form {events : List (ChannelRef × EventMask)} {k : Server}
      (step : machine.step s (.loop l, .poll events) = some k) :
      ∃ sys, s.loopStep (some (l, .advance (events.map Prod.fst))) = some sys ∧
        k = s.after (.loop l) { change := .fillActiveChannels events } sys := by
    obtain ⟨eff, sys, does, loops, rfl⟩ := step_does step
    generalize (s.stack (.loop l)).head? = head at does
    cases does with
    | poll l events waits reports => exact ⟨sys, loops, rfl⟩
  obtain ⟨sys, loops, rfl⟩ := form h
  obtain ⟨sys', loops', rfl⟩ := form h'
  rw [channels, loops] at loops'
  cases loops'
  simp only [Server.after, Server.act, fills]

/-- `EpollPoller::poll` is the step that the server takes when `epoll_wait` returns. In every
reachable state in which a loop waits, whatever the kernel answers and whatever the array has kept
from earlier calls, the loop of `fillActiveChannels` reads no stale entry, and the step of the
server for the reported events is possible and leaves the channels, the poller and the batch as
`poll` leaves them; and every such step of the server is one for an answer of the kernel to a call
with an array that has room for the batch. -/
theorem poll_refined (config : ServerConfig) (s : Server)
    (h : machine.Reachable (Server.new config) s) (l : LoopId) (made : l ≤ config.numThreads_)
    (waits : (s.sys l).loop.position = .polling) :
    (∀ wakeupChannel events_ r, s.Answers l events_.length r →
      ∃ m p, machine.step s (.loop l, .poll (reported r)) = some m ∧
        (s.pollLoop l wakeupChannel events_).poll r = some p ∧ m.Agree l p) ∧
    ∀ active m, machine.step s (.loop l, .poll active) = some m →
      ∃ r, s.Answers l active.length r ∧
        machine.step s (.loop l, .poll (reported r)) = some m := by
  constructor
  · intro wakeupChannel events_ r answers
    obtain ⟨m, step⟩ := step_answers h made waits answers
    obtain ⟨p, poll, agree⟩ := (step_polled h step).agree (answers.nodup h) wakeupChannel events_
      answers.fits.length_le
    exact ⟨m, p, step, poll, agree⟩
  · intro active m step
    have answers := (step_polled h step).answers h made
    obtain ⟨m', step'⟩ := step_answers h made waits answers
    have channels : (reported (s.answer l active)).map Prod.fst = active.map Prod.fst := by
      rw [reported_answer, List.map_map]
      rfl
    exact ⟨_, answers, step_poll_congr channels fillActiveChannels_answer step step' ▸ step'⟩

/-- The array has kept the events of a closed connection. -/
def keptEvents : List (Option (EpollEvent ChannelRef)) :=
  List.replicate 3 (some ⟨EPOLLHUP, .conn 7⟩) ++ List.replicate 13 none

def bothAnswered : WaitResult ChannelRef :=
  .got [(9, ⟨EPOLLIN, .conn 1⟩), (noLoops.listenfd, ⟨EPOLLIN, .acceptor⟩)]

theorem poll_refined_both : ∃ s, machine.Run (Server.new noLoops) waitingAlone s ∧
    ∃ m p, machine.step s (.loop 0, .poll bothReady) = some m ∧
      (s.pollLoop 0 (Channel.new 3) keptEvents).poll bothAnswered = some p ∧ m.Agree 0 p := by
  obtain ⟨s, run, waits, answers⟩ := machine.exists_run (.new noLoops) waitingAlone
    (fun s => (s.sys 0).loop.position = .polling ∧
      s.Answers 0 keptEvents.length bothAnswered) (by decide +kernel)
  exact ⟨s, run, (poll_refined noLoops s run.reachable 0 (Nat.zero_le _) waits).1 _ _ _ answers⟩

end Server

end TcpMuduo
