import MatrixTransposer.UnixSockIpcServer

/-!
# The steps of `ServerThread`

The thread's step function, inverted: a constructor for each thing it can do.
-/

namespace MatrixTransposer.UnixSockIpcServer

variable {size baseFd : Nat} {s t : State} {reply : Reply}

inductive ThreadMove (size baseFd : Nat) (s : State) : Reply → State → Prop where
  | enter (hpc : s.pc = .loop) (hrunning : s.running = true) :
      ThreadMove size baseFd s .none { s with pc := .poll }
  | leave (hpc : s.pc = .loop) (hrunning : s.running = false) :
      ThreadMove size baseFd s .none { s with pc := .drain }
  | poll {events : List Event} (hpc : s.pc = .poll) (hevents : Deliverable baseFd s events) :
      ThreadMove size baseFd s (.events events) { s with pc := .dispatch events }
  | pollFailed (hpc : s.pc = .poll) :
      ThreadMove size baseFd s .failed { s with pc := .drain }
  | batchDone (hpc : s.pc = .dispatch []) :
      ThreadMove size baseFd s .none { s with pc := .loop }
  | accept {e : Event} {events : List Event} {fd : Nat} (hpc : s.pc = .dispatch (e :: events))
      (hfd : s.connections fd = none) :
      ThreadMove size baseFd s (.accepted fd)
        { s.setConnection fd (some { unread := [], peerClosed := false }) with
          backlog := s.backlog - 1
          connectionCount := s.connectionCount + 1
          pc := .dispatch events }
  | acceptFailed {e : Event} {events : List Event} (hpc : s.pc = .dispatch (e :: events)) :
      ThreadMove size baseFd s .failed { s with pc := .dispatch events }
  | hangUp {e : Event} {events : List Event} (hpc : s.pc = .dispatch (e :: events))
      (hbase : e.fd ≠ baseFd) (hevent : e.hangUp = true) :
      ThreadMove size baseFd s .none { s.dropConnection e.fd with pc := .dispatch events }
  | readable {e : Event} {events : List Event} (hpc : s.pc = .dispatch (e :: events))
      (hbase : e.fd ≠ baseFd) (hevent : e.hangUp = false) :
      ThreadMove size baseFd s .none { s with pc := .assemble e.fd 0 events }
  | ignored {e : Event} {events : List Event} (hpc : s.pc = .dispatch (e :: events))
      (hbase : e.fd ≠ baseFd) (hevent : e.hangUp = false) :
      ThreadMove size baseFd s .none { s with pc := .dispatch events }
  | incomplete {fd totalRead : Nat} {events : List Event}
      (hpc : s.pc = .assemble fd totalRead events) (hsize : totalRead < size)
      (hrunning : s.running = true) :
      ThreadMove size baseFd s .none { s with pc := .recv fd totalRead events }
  | assembled {fd totalRead : Nat} {events : List Event}
      (hpc : s.pc = .assemble fd totalRead events)
      (hexit : ¬ (totalRead < size ∧ s.running = true)) :
      ThreadMove size baseFd s .none { s with pc := .handle fd events }
  | data {fd totalRead count : Nat} {events : List Event} {c : Connection}
      (hpc : s.pc = .recv fd totalRead events) (hfd : s.connections fd = some c)
      (hcount : 0 < count) (hsize : count ≤ size - totalRead) (hunread : count ≤ c.unread.length) :
      ThreadMove size baseFd s (.data count)
        { s.setConnection fd (some { c with unread := c.unread.drop count }) with
          buffer := writeBuffer s.buffer totalRead (c.unread.take count)
          pc := .assemble fd (totalRead + count) events }
  | again {fd totalRead : Nat} {events : List Event} (hpc : s.pc = .recv fd totalRead events) :
      ThreadMove size baseFd s .again { s with pc := .assemble fd totalRead events }
  | endOfStream {fd totalRead : Nat} {events : List Event} {c : Connection}
      (hpc : s.pc = .recv fd totalRead events) (hfd : s.connections fd = some c)
      (hunread : c.unread = []) (hclosed : c.peerClosed = true) :
      ThreadMove size baseFd s .endOfStream { s with pc := .assemble fd totalRead events }
  | recvFailed {fd totalRead : Nat} {events : List Event}
      (hpc : s.pc = .recv fd totalRead events) :
      ThreadMove size baseFd s .failed { s.dropConnection fd with pc := .handle fd events }
  | handled {fd : Nat} {events : List Event} (hpc : s.pc = .handle fd events) :
      ThreadMove size baseFd s .none { s with pc := .dispatch events }
  | drained {reply : Reply} (hpc : s.pc = .drain) (hreply : reply = .events [] ∨ reply = .failed) :
      ThreadMove size baseFd s reply { s with pc := .exited }
  | drain {events : List Event} (hpc : s.pc = .drain) (hevents : Deliverable baseFd s events) :
      ThreadMove size baseFd s (.events events) { s with pc := .drainClose events }
  | drainDone (hpc : s.pc = .drainClose []) :
      ThreadMove size baseFd s .none { s with pc := .drain }
  | drainBase {e : Event} {events : List Event} (hpc : s.pc = .drainClose (e :: events))
      (hbase : e.fd = baseFd) :
      ThreadMove size baseFd s .none { s with pc := .drainClose events }
  | drainClose {e : Event} {events : List Event} (hpc : s.pc = .drainClose (e :: events))
      (hbase : e.fd ≠ baseFd) :
      ThreadMove size baseFd s .none { s.setConnection e.fd none with pc := .drainClose events }

theorem dispatchMove_of_step {e : Event} {events : List Event}
    (hpc : s.pc = .dispatch (e :: events)) (h : dispatchStep baseFd s e events reply = some t) :
    ThreadMove size baseFd s reply t := by
  cases reply with
  | accepted fd =>
      simp only [dispatchStep] at h
      split at h
      case isTrue hcond =>
        cases h
        exact .accept hpc hcond.2.2.2
      case isFalse => cases h
  | failed =>
      simp only [dispatchStep] at h
      split at h
      case isTrue =>
        cases h
        exact .acceptFailed hpc
      case isFalse => cases h
  | none =>
      simp only [dispatchStep] at h
      split at h
      case isTrue => cases h
      case isFalse hbase =>
        split at h
        case isTrue hevent =>
          cases h
          exact .hangUp hpc hbase hevent
        case isFalse hevent =>
          replace hevent := eq_false_of_ne_true hevent
          split at h
          case isTrue =>
            cases h
            exact .readable hpc hbase hevent
          case isFalse =>
            cases h
            exact .ignored hpc hbase hevent
  | _ => cases h

theorem recvMove_of_step {fd totalRead : Nat} {events : List Event}
    (hpc : s.pc = .recv fd totalRead events)
    (h : recvStep size s fd totalRead events reply = some t) :
    ThreadMove size baseFd s reply t := by
  cases reply with
  | data count =>
      cases hfd : s.connections fd with
      | none =>
          simp only [recvStep, hfd] at h
          cases h
      | some c =>
          simp only [recvStep, hfd] at h
          split at h
          case isTrue hcond =>
            cases h
            exact .data hpc hfd hcond.1 hcond.2.1 hcond.2.2
          case isFalse => cases h
  | again =>
      cases h
      exact .again hpc
  | endOfStream =>
      cases hfd : s.connections fd with
      | none =>
          simp only [recvStep, hfd] at h
          cases h
      | some c =>
          simp only [recvStep, hfd] at h
          split at h
          case isTrue hcond =>
            cases h
            exact .endOfStream hpc hfd hcond.1 hcond.2
          case isFalse => cases h
  | failed =>
      cases h
      exact .recvFailed hpc
  | _ => cases h

theorem pollMove_of_step (hpc : s.pc = .poll) (h : pollStep baseFd s reply = some t) :
    ThreadMove size baseFd s reply t := by
  cases reply with
  | events events =>
      simp only [pollStep] at h
      split at h
      case isTrue hevents =>
        cases h
        exact .poll hpc hevents
      case isFalse => cases h
  | failed =>
      cases h
      exact .pollFailed hpc
  | _ => cases h

theorem drainMove_of_step (hpc : s.pc = .drain) (h : drainStep baseFd s reply = some t) :
    ThreadMove size baseFd s reply t := by
  cases reply with
  | events events =>
      cases events with
      | nil =>
          cases h
          exact .drained hpc (Or.inl rfl)
      | cons e events =>
          simp only [drainStep] at h
          split at h
          case isTrue hevents =>
            cases h
            exact .drain hpc hevents
          case isFalse => cases h
  | failed =>
      cases h
      exact .drained hpc (Or.inr rfl)
  | _ => cases h

theorem silentStep_eq_some {u : State} (h : silentStep u reply = some t) :
    reply = .none ∧ t = u := by
  cases reply with
  | none =>
      cases h
      exact ⟨rfl, rfl⟩
  | _ => cases h

theorem threadMove_of_step (h : threadStep size baseFd s reply = some t) :
    ThreadMove size baseFd s reply t := by
  unfold threadStep at h
  split at h
  case h_1 hpc =>
    obtain ⟨rfl, rfl⟩ := silentStep_eq_some h
    split
    case isTrue hrunning => exact .enter hpc hrunning
    case isFalse hrunning => exact .leave hpc (eq_false_of_ne_true hrunning)
  case h_2 hpc => exact pollMove_of_step hpc h
  case h_3 hpc =>
    obtain ⟨rfl, rfl⟩ := silentStep_eq_some h
    exact .batchDone hpc
  case h_4 e events hpc => exact dispatchMove_of_step hpc h
  case h_5 fd totalRead events hpc =>
    obtain ⟨rfl, rfl⟩ := silentStep_eq_some h
    split
    case isTrue hcond => exact .incomplete hpc hcond.1 hcond.2
    case isFalse hcond => exact .assembled hpc hcond
  case h_6 fd totalRead events hpc => exact recvMove_of_step hpc h
  case h_7 fd events hpc =>
    obtain ⟨rfl, rfl⟩ := silentStep_eq_some h
    exact .handled hpc
  case h_8 hpc => exact drainMove_of_step hpc h
  case h_9 hpc =>
    obtain ⟨rfl, rfl⟩ := silentStep_eq_some h
    exact .drainDone hpc
  case h_10 e events hpc =>
    obtain ⟨rfl, rfl⟩ := silentStep_eq_some h
    split
    case isTrue hbase => exact .drainBase hpc hbase
    case isFalse hbase => exact .drainClose hpc hbase
  case h_11 => cases h

/-! ## The steps of the server and its peers -/

inductive Move (size baseFd : Nat) (s : State) : Action → State → Prop where
  | connect : Move size baseFd s .connect { s with backlog := s.backlog + 1 }
  | arrive {fd : Nat} {bytes : List UInt8} {c : Connection} (hfd : s.connections fd = some c)
      (hopen : c.peerClosed = false) :
      Move size baseFd s (.arrive fd bytes)
        (s.setConnection fd (some { c with unread := c.unread ++ bytes }))
  | peerClose {fd : Nat} {c : Connection} (hfd : s.connections fd = some c) :
      Move size baseFd s (.peerClose fd)
        (s.setConnection fd (some { c with peerClosed := true }))
  | stop : Move size baseFd s .stop { s with running := false }
  | thread {reply : Reply} {t : State} (hmove : ThreadMove size baseFd s reply t) :
      Move size baseFd s (.thread reply) t

theorem move_of_step {a : Action} (h : step size baseFd s a = some t) :
    Move size baseFd s a t := by
  cases a with
  | connect =>
      cases h
      exact .connect
  | arrive fd bytes =>
      simp only [step] at h
      split at h
      case h_1 => cases h
      case h_2 c hfd =>
        split at h
        case isTrue => cases h
        case isFalse hopen =>
          cases h
          exact .arrive hfd (eq_false_of_ne_true hopen)
  | peerClose fd =>
      simp only [step] at h
      split at h
      case h_1 => cases h
      case h_2 c hfd =>
        cases h
        exact .peerClose hfd
  | stop =>
      cases h
      exact .stop
  | thread reply => exact .thread (threadMove_of_step h)

/-- The thread has left the main loop. -/
def Draining : Pc → Bool
  | .drain | .drainClose _ | .exited => true
  | _ => false

end MatrixTransposer.UnixSockIpcServer
