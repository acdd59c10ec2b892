import MatrixTransposer.Lib.StepCondition
import MatrixTransposer.Proof.OpenConnections

/-!
# The loop after the main loop

Once stopped, `ServerThread` calls `epoll_wait` until it reports nothing, and closes every
descriptor it is given, except the listening socket. A closed connection is not reported again, so
the ready connections are used up. A connection request is not: it makes the listening socket ready,
it is never accepted, and so the loop is never left, nor does the destructor that joins the thread
return.
-/

namespace MatrixTransposer.UnixSockIpcServer

open Lib

variable {size baseFd : Nat} {s t : State} {a : Action} {acts : List Action}

/-- `EPOLLIN` of the listening socket or of a connection, or the end of a connection. -/
def Ready (baseFd : Nat) (s : State) (fd : Nat) : Prop :=
  if fd = baseFd then 0 < s.backlog
  else ∃ c ∈ s.connections fd, c.unread ≠ [] ∨ c.peerClosed = true

/-- Only the thread acts, and `epoll_wait` is level-triggered: it reports what is ready, and
something as long as anything is. -/
def Quiet (baseFd : Nat) (s : State) : Action → Prop
  | .thread (.events events) =>
      (∀ e ∈ events, Ready baseFd s e.fd) ∧ (events = [] → ∀ fd, ¬ Ready baseFd s fd)
  | .thread _ => True
  | _ => False

/-- Some number of steps is exceeded by no run, and a run that cannot go on has left the loop. -/
def DrainTerminates (size baseFd : Nat) (s : State) : Prop :=
  (∃ bound, ∀ acts t, (machine size baseFd).Steps (Quiet baseFd) s acts →
    (machine size baseFd).exec s acts = some t → acts.length ≤ bound) ∧
  ∀ acts t, (machine size baseFd).Steps (Quiet baseFd) s acts →
    (machine size baseFd).exec s acts = some t →
    t.pc = .exited ∨ ∃ a u, Quiet baseFd t a ∧ step size baseFd t a = some u

/-! ### The steps of the loop -/

inductive DrainMove (baseFd : Nat) (s : State) : Reply → State → Prop where
  | exit {reply : Reply} (hpc : s.pc = .drain) (hreply : reply = .events [] ∨ reply = .failed) :
      DrainMove baseFd s reply { s with pc := .exited }
  | report {e : Event} {events : List Event} (hpc : s.pc = .drain) :
      DrainMove baseFd s (.events (e :: events)) { s with pc := .drainClose (e :: events) }
  | done (hpc : s.pc = .drainClose []) : DrainMove baseFd s .none { s with pc := .drain }
  | skip {e : Event} {events : List Event} (hpc : s.pc = .drainClose (e :: events))
      (hbase : e.fd = baseFd) : DrainMove baseFd s .none { s with pc := .drainClose events }
  | close {e : Event} {events : List Event} (hpc : s.pc = .drainClose (e :: events))
      (hbase : e.fd ≠ baseFd) :
      DrainMove baseFd s .none { s.setConnection e.fd none with pc := .drainClose events }

theorem drainMove_of_threadStep {reply : Reply} (hdraining : Draining s.pc = true)
    (h : threadStep size baseFd s reply = some t) : DrainMove baseFd s reply t := by
  cases hpc : s.pc with
  | drain =>
      simp only [threadStep, hpc] at h
      cases reply with
      | events events =>
          cases events with
          | nil =>
              cases h
              exact .exit hpc (.inl rfl)
          | cons e events =>
              simp only [drainStep] at h
              split at h
              case isTrue =>
                cases h
                exact .report hpc
              case isFalse => cases h
      | failed =>
          cases h
          exact .exit hpc (.inr rfl)
      | _ => cases h
  | drainClose events =>
      cases events with
      | nil =>
          simp only [threadStep, hpc] at h
          obtain ⟨rfl, rfl⟩ := silentStep_eq_some h
          exact .done hpc
      | cons e events =>
          simp only [threadStep, hpc] at h
          obtain ⟨rfl, rfl⟩ := silentStep_eq_some h
          split
          case isTrue hbase => exact .skip hpc hbase
          case isFalse hbase => exact .close hpc hbase
  | exited =>
      simp only [threadStep, hpc] at h
      cases h
  | _ =>
      rw [hpc] at hdraining
      cases hdraining

theorem Quiet.thread (hquiet : Quiet baseFd s a) : ∃ reply, a = .thread reply := by
  cases a with
  | thread reply => exact ⟨reply, rfl⟩
  | _ => exact hquiet.elim

theorem DrainMove.draining {reply : Reply} (h : DrainMove baseFd s reply t) :
    Draining t.pc = true := by
  cases h <;> rfl

/-- Nobody accepts a connection any more. -/
theorem DrainMove.backlog {reply : Reply} (h : DrainMove baseFd s reply t) :
    t.backlog = s.backlog := by
  cases h <;> rfl

/-- The main loop is not entered again. -/
theorem draining_step (hdraining : Draining s.pc = true) (h : step size baseFd s a = some t) :
    Draining t.pc = true := by
  cases move_of_step h with
  | connect | arrive | peerClose | stop => exact hdraining
  | thread => exact (drainMove_of_threadStep hdraining h).draining

/-- Until it has exited, the thread can go on, and it does not exit over something ready. -/
theorem exists_drain_step (size baseFd : Nat) (hdraining : Draining s.pc = true)
    (hpc : s.pc ≠ .exited) :
    ∃ reply t, Quiet baseFd s (.thread reply) ∧ threadStep size baseFd s reply = some t ∧
      ((∃ fd, Ready baseFd s fd) → t.pc ≠ .exited) := by
  cases hcases : s.pc with
  | drain =>
      by_cases hready : ∃ fd, Ready baseFd s fd
      · obtain ⟨fd, hfd⟩ := hready
        have hdeliverable : Deliverable baseFd s [⟨fd, false, true⟩] := by
          refine ⟨by simp [maxEvents], by simp, ?_⟩
          simp only [List.mem_singleton, forall_eq]
          intro hbase
          simp only [Ready, if_neg hbase] at hfd
          obtain ⟨c, hc, -⟩ := hfd
          exact ⟨c, hc, by simp⟩
        refine ⟨.events [⟨fd, false, true⟩], { s with pc := .drainClose [⟨fd, false, true⟩] },
          ⟨by simpa using hfd, by simp⟩, ?_, by simp⟩
        simp [threadStep, hcases, drainStep, hdeliverable]
      · refine ⟨.events [], { s with pc := .exited }, ⟨by simp, fun _ fd hfd => hready ⟨fd, hfd⟩⟩,
          ?_, fun h => absurd h hready⟩
        simp [threadStep, hcases, drainStep]
  | drainClose events =>
      cases events with
      | nil =>
          refine ⟨.none, { s with pc := .drain }, trivial, ?_, by simp⟩
          simp [threadStep, hcases, silentStep]
      | cons e events =>
          refine ⟨.none, { (if e.fd = baseFd then s else s.setConnection e.fd none) with
            pc := .drainClose events }, trivial, ?_, by simp⟩
          simp [threadStep, hcases, silentStep]
  | exited => exact absurd hcases hpc
  | _ =>
      rw [hcases] at hdraining
      cases hdraining

/-! ### Without a connection request -/

/-- A bound on the steps that are left: a report, a close and the return to `epoll_wait` for each
connection. -/
noncomputable def drainLeft (s : State) : Nat :=
  3 * s.openFds.ncard +
    match s.pc with
    | .drain => 1
    | .drainClose [] => 2
    | _ => 0

structure DrainInv (baseFd : Nat) (s : State) : Prop where
  registered : Registered baseFd s
  finite : s.openFds.Finite
  pc : Draining s.pc = true
  backlog : s.backlog = 0
  noBase : ∀ e ∈ batch s.pc, e.fd ≠ baseFd

/-- A report names a connection, which is then closed. -/
theorem DrainInv.step (hs : DrainInv baseFd s) (hquiet : Quiet baseFd s a)
    (h : step size baseFd s a = some t) : DrainInv baseFd t ∧ drainLeft t < drainLeft s := by
  obtain ⟨reply, rfl⟩ := hquiet.thread
  have hmove := drainMove_of_threadStep hs.pc h
  have hregistered := hs.registered.step h
  have hfinite := (countMove_of_step hs.registered h).finite hs.finite
  have hbacklog := hmove.backlog.trans hs.backlog
  refine ⟨⟨hregistered, hfinite, hmove.draining, hbacklog, ?_⟩, ?_⟩
  · cases hmove with
    | exit | done => simp [batch]
    | report hpc =>
        intro e he hbase
        have hready := hquiet.1 e he
        rw [Ready, if_pos hbase, hs.backlog] at hready
        exact absurd hready (Nat.lt_irrefl 0)
    | skip hpc | close hpc =>
        have hrest := hs.noBase
        rw [hpc] at hrest
        exact fun e he => hrest e (List.mem_cons_of_mem _ he)
  · cases hmove with
    | exit hpc | report hpc | done hpc =>
        simp only [drainLeft, hpc]
        change 3 * s.openFds.ncard + _ < _
        omega
    | skip hpc hbase =>
        have hfirst := hs.noBase _ (by rw [hpc]; exact List.mem_cons_self)
        exact absurd hbase hfirst
    | @close e events hpc hbase =>
        have hopen : e.fd ∈ s.openFds :=
          hs.registered.events e (by rw [hpc]; exact List.mem_cons_self) hbase
        have hcard := Set.ncard_sdiff_singleton_add_one hopen hs.finite
        rw [← openFds_setConnection_none] at hcard
        simp only [drainLeft, hpc]
        change 3 * (s.setConnection e.fd none).openFds.ncard + _ < _
        cases events <;> simp only <;> omega

theorem drain_bounded_of_backlog (hs : (machine size baseFd).Reachable s) (hpc : s.pc = .drain)
    (hbacklog : s.backlog = 0) :
    ∃ bound, ∀ acts t, (machine size baseFd).Steps (Quiet baseFd) s acts →
      (machine size baseFd).exec s acts = some t → acts.length ≤ bound := by
  obtain ⟨hregistered, hfinite⟩ := registered_finite_of_reachable hs
  have hstart : DrainInv baseFd s :=
    ⟨hregistered, hfinite, by rw [hpc]; rfl, hbacklog, by simp [hpc, batch]⟩
  refine ⟨drainLeft s, fun acts t hsteps hrun => ?_⟩
  have hlength := Machine.length_add_le_of_steps drainLeft
    (fun _ _ _ hs hquiet hstep => hs.step hquiet hstep) hstart hsteps hrun
  omega

/-! ### With one -/

/-- What no step changes as long as `epoll_wait` does not fail. -/
structure Requested (s : State) : Prop where
  pc : Draining s.pc = true
  stays : s.pc ≠ .exited
  backlog : 0 < s.backlog

theorem ready_baseFd (hbacklog : 0 < s.backlog) : Ready baseFd s baseFd := by
  rwa [Ready, if_pos rfl]

theorem Requested.step (hs : Requested s) (hquiet : Quiet baseFd s a) (ha : a ≠ .thread .failed)
    (h : step size baseFd s a = some t) : Requested t := by
  obtain ⟨reply, rfl⟩ := hquiet.thread
  have hmove := drainMove_of_threadStep hs.pc h
  refine ⟨hmove.draining, ?_, hmove.backlog ▸ hs.backlog⟩
  cases hmove with
  | exit hpc hreply =>
      rcases hreply with rfl | rfl
      · exact absurd (ready_baseFd hs.backlog) (hquiet.2 rfl baseFd)
      · exact absurd rfl ha
  | report | done | skip | close => simp

theorem Requested.exists_step (size baseFd : Nat) (hs : Requested s) :
    ∃ a t, Quiet baseFd s a ∧ (machine size baseFd).step s a = some t ∧ Requested t := by
  obtain ⟨reply, t, hquiet, hstep, hstays⟩ :=
    exists_drain_step size baseFd hs.pc hs.stays
  have hmove := drainMove_of_threadStep hs.pc hstep
  exact ⟨.thread reply, t, hquiet, hstep, hmove.draining,
    hstays ⟨baseFd, ready_baseFd hs.backlog⟩, hmove.backlog ▸ hs.backlog⟩

theorem Requested.not_drainTerminates (size baseFd : Nat) (hs : Requested s) :
    ¬ DrainTerminates size baseFd s := by
  rintro ⟨⟨bound, hbound⟩, -⟩
  obtain ⟨acts, t, hsteps, hrun, hlength⟩ := Machine.exists_steps_of_length
    (fun _ hs => hs.exists_step size baseFd) hs (bound + 1)
  have hle := hbound acts t hsteps hrun
  omega

/-! ### Main result -/

/-- **The drain loop ends unless a connection request waits.** Whatever connections are open and
ready when the server enters the loop, and in whatever order `epoll_wait` reports them, the loop
terminates exactly if the backlog of the listening socket is empty. -/
theorem drain_terminates_iff (hs : (machine size baseFd).Reachable s) (hpc : s.pc = .drain) :
    DrainTerminates size baseFd s ↔ s.backlog = 0 := by
  have hdraining : Draining s.pc = true := by rw [hpc]; rfl
  have hkeep {acts : List Action} {t : State}
      (hrun : (machine size baseFd).exec s acts = some t) : Draining t.pc = true :=
    Machine.exec_preserves (I := fun s => Draining s.pc = true)
      (fun _ _ _ hs hstep => draining_step hs hstep) hdraining hrun
  constructor
  · intro hterminates
    by_contra hbacklog
    have hrequested : Requested s :=
      ⟨hdraining, by simp [hpc], Nat.pos_of_ne_zero hbacklog⟩
    exact hrequested.not_drainTerminates size baseFd hterminates
  · intro hbacklog
    refine ⟨drain_bounded_of_backlog hs hpc hbacklog, fun acts t hsteps hrun => ?_⟩
    by_cases hexited : t.pc = .exited
    · exact .inl hexited
    · obtain ⟨reply, u, hquiet, hstep, -⟩ :=
        exists_drain_step size baseFd (hkeep hrun) hexited
      exact .inr ⟨.thread reply, u, hquiet, hstep⟩

/-- The server with the listening socket 3 accepts a connection, is sent a byte and is stopped. -/
def stoppedWithByte : List Action :=
  [.connect, .thread .none, .thread (.events [⟨3, false, true⟩]), .thread (.accepted 7),
    .thread .none, .arrive 7 [1], .stop, .thread .none]

theorem drain_terminates_unread_byte :
    ∃ s, (machine 8 3).exec (initial fun _ => 0) stoppedWithByte = some s ∧ Ready 3 s 7 ∧
      DrainTerminates 8 3 s :=
  have hrun : (machine 8 3).exec (initial fun _ => 0) stoppedWithByte = some _ := rfl
  ⟨_, hrun, ⟨_, rfl, .inl (by decide)⟩,
    (drain_terminates_iff ⟨_, _, ⟨fun _ => 0, rfl⟩, hrun⟩ rfl).mpr rfl⟩

/-- A connection request that comes in just before the stop. Unless `epoll_wait` fails, no run
leaves the loop. -/
theorem request_in_backlog_never_ends :
    ∃ s, (machine 8 3).exec (initial fun _ => 0) [.connect, .stop, .thread .none] = some s ∧
      s.pc = .drain ∧ ¬ DrainTerminates 8 3 s ∧
      ∀ acts t, (machine 8 3).Steps (fun s a => Quiet 3 s a ∧ a ≠ .thread .failed) s acts →
        (machine 8 3).exec s acts = some t → t.pc ≠ .exited := by
  have hrequested : Requested { initial (fun _ => 0) with
      backlog := 1, running := false, pc := .drain } := ⟨rfl, by simp, by decide⟩
  refine ⟨_, rfl, rfl, hrequested.not_drainTerminates 8 3, fun acts t hsteps hrun => ?_⟩
  exact (Machine.exec_preserves_of_steps
    (fun _ _ _ hs hcond hstep => hs.step hcond.1 hcond.2 hstep) hrequested hsteps hrun).stays

end MatrixTransposer.UnixSockIpcServer
