import MatrixTransposer.Proof.DrainLoop
import MatrixTransposer.UnixSockIpcClient

/-!
# The count of the connections

Both endpoints lower `m_ConnectionCount` when they drop a connection. The server raises it when it
accepts one, so its count is right as long as the main loop runs. The client does not raise it when
it connects: its count is 0 with one connection and wraps when that is dropped.
-/

namespace MatrixTransposer

open Lib

/-! ### The server -/

namespace UnixSockIpcServer

variable {size baseFd : Nat} {s t : State} {a : Action} {acts : List Action}

/-- `accept` returns an `int`. -/
def DescriptorsAreInts (_ : State) : Action → Prop
  | .thread (.accepted fd) => fd < 2 ^ 31
  | _ => True

structure Counted (baseFd : Nat) (s : State) : Prop where
  registered : Registered baseFd s
  small : ∀ fd ∈ s.openFds, fd < 2 ^ 31
  count : Draining s.pc = false → s.connectionCount.toNat = s.openFds.ncard

theorem ncard_le_of_small {fds : Set Nat} (h : ∀ fd ∈ fds, fd < 2 ^ 31) :
    fds.Finite ∧ fds.ncard ≤ 2 ^ 31 := by
  have hsub : fds ⊆ ↑(Finset.range (2 ^ 31)) := fun fd hfd => by simpa using h fd hfd
  refine ⟨(Finset.finite_toSet _).subset hsub, ?_⟩
  calc fds.ncard ≤ (↑(Finset.range (2 ^ 31)) : Set Nat).ncard :=
        Set.ncard_le_ncard hsub (Finset.finite_toSet _)
    _ = 2 ^ 31 := by rw [Set.ncard_coe_finset, Finset.card_range]

theorem Counted.step (hs : Counted baseFd s) (hints : DescriptorsAreInts s a)
    (h : step size baseFd s a = some t) : Counted baseFd t := by
  have hregistered := hs.registered.step h
  obtain ⟨hfinite, hle⟩ := ncard_le_of_small hs.small
  have hmain : Draining t.pc = false → Draining s.pc = false := by
    intro ht
    by_contra hdraining
    rw [draining_step (eq_true_of_ne_false hdraining) h] at ht
    cases ht
  cases countMove_of_step hs.registered h with
  | same hopen hcount =>
      refine ⟨hregistered, hopen ▸ hs.small, fun ht => ?_⟩
      rw [hopen, hcount]
      exact hs.count (hmain ht)
  | @opened fd _ hnew hopen hcount =>
      refine ⟨hregistered, ?_, fun ht => ?_⟩
      · rw [hopen]
        rintro fd' (rfl | hfd')
        · exact hints
        · exact hs.small fd' hfd'
      · have hsame := hs.count (hmain ht)
        rw [hopen, hcount, Set.ncard_insert_of_notMem hnew hfinite, UInt32.toNat_add, hsame,
          UInt32.toNat_one, Nat.mod_eq_of_lt (by omega)]
  | closed hold hopen hcount =>
      refine ⟨hregistered, ?_, fun ht => ?_⟩
      · rw [hopen]
        exact fun fd hfd => hs.small fd hfd.1
      · have hsame := hs.count (hmain ht)
        have hcard := Set.ncard_sdiff_singleton_add_one hold hfinite
        have hone : (1 : UInt32) ≤ s.connectionCount := by
          rw [UInt32.le_iff_toNat_le, hsame, UInt32.toNat_one]
          omega
        rw [hopen, hcount, UInt32.toNat_sub_of_le _ _ hone, hsame, UInt32.toNat_one]
        omega
  | drained hdraining hopen =>
      refine ⟨hregistered, ?_, fun ht => ?_⟩
      · rw [hopen]
        exact fun fd hfd => hs.small fd hfd.1
      · rw [hdraining] at ht
        cases ht

theorem counted_initial (baseFd : Nat) (buffer : Nat → UInt8) :
    Counted baseFd (initial buffer) := by
  have hopen : (initial buffer).openFds = ∅ := by simp [State.openFds, initial]
  refine ⟨registered_initial baseFd buffer, by simp [hopen], fun _ => ?_⟩
  rw [hopen, Set.ncard_empty]
  rfl

/-- A step that lowers the count drops a connection, so there is one. -/
theorem Counted.not_wrapped (hs : Counted baseFd s) (hmain : Draining s.pc = false)
    (h : UnixSockIpcServer.step size baseFd s a = some t) (hzero : s.connectionCount = 0) :
    t.connectionCount ≠ s.connectionCount - 1 := by
  have hcount := hs.count hmain
  rw [hzero, UInt32.toNat_zero] at hcount
  obtain ⟨hfinite, -⟩ := ncard_le_of_small hs.small
  cases countMove_of_step hs.registered h with
  | same _ hsame | drained _ _ hsame =>
      rw [hsame, hzero]
      decide
  | opened _ _ hraised =>
      rw [hraised, hzero]
      decide
  | closed hold =>
      have hempty := (Set.ncard_eq_zero hfinite).mp hcount.symm
      rw [hempty] at hold
      exact hold.elim

end UnixSockIpcServer

/-! ### The client -/

namespace UnixSockIpcClient

open UnixSockIpcServer (Reply)

variable {size baseFd : Nat} {s t : State} {a : Action} {reply : Reply}

theorem silentStep_eq_some {u : State} (h : silentStep u reply = some t) : t = u := by
  cases reply with
  | none => exact (Option.some.inj h).symm
  | _ => cases h

/-- The connection and its count stay, or the connection is dropped and the thread returns. -/
inductive CountMove (s t : State) : Prop where
  | same (hregistered : t.registered = s.registered)
      (hcount : t.connectionCount = s.connectionCount) (hexited : s.pc = .exited → t.pc = .exited)
  | dropped (hpc : s.pc ≠ .exited) (hdrop : t = s.dropConnection)

theorem countMove_of_threadStep (h : threadStep size baseFd s reply = some t) : CountMove s t := by
  cases hpc : s.pc with
  | loop | assemble | handle =>
      simp only [threadStep, hpc] at h
      rw [silentStep_eq_some h]
      exact .same rfl rfl (by simp [hpc])
  | poll =>
      simp only [threadStep, hpc] at h
      unfold pollStep at h
      split at h
      case h_1 | h_3 =>
        cases h
        exact .same rfl rfl (by simp [hpc])
      case h_2 =>
        split at h
        case isTrue =>
          cases h
          exact .same rfl rfl (by simp [hpc])
        case isFalse => cases h
      case h_4 => cases h
  | dispatch event =>
      simp only [threadStep, hpc] at h
      rw [silentStep_eq_some h]
      split
      case isTrue => exact .dropped (by simp [hpc]) rfl
      case isFalse =>
        split <;> exact .same rfl rfl (by simp [hpc])
  | recv totalRead =>
      simp only [threadStep, hpc] at h
      cases reply with
      | data count =>
          simp only [recvStep] at h
          split at h
          case isTrue =>
            cases h
            exact .same rfl rfl (by simp [hpc])
          case isFalse => cases h
      | again =>
          cases h
          exact .same rfl rfl (by simp [hpc])
      | endOfStream =>
          simp only [recvStep] at h
          split at h
          case isTrue =>
            cases h
            exact .same rfl rfl (by simp [hpc])
          case isFalse => cases h
      | failed =>
          cases h
          exact .dropped (by simp [hpc]) rfl
      | _ => cases h
  | exited =>
      simp only [threadStep, hpc] at h
      cases h

theorem countMove_of_step (h : step size baseFd s a = some t) : CountMove s t := by
  cases a with
  | arrive bytes =>
      simp only [step] at h
      split at h
      case isTrue => cases h
      case isFalse =>
        cases h
        exact .same rfl rfl id
  | peerClose | stop =>
      cases h
      exact .same rfl rfl id
  | thread reply => exact countMove_of_threadStep h

/-- The count is one too small, in the arithmetic of the counter. -/
inductive Uncounted (s : State) : Prop where
  | connected (hregistered : s.registered = true) (hcount : s.connectionCount = 0)
  | dropped (hregistered : s.registered = false) (hcount : s.connectionCount = 4294967295)
      (hpc : s.pc = .exited)

theorem Uncounted.step (hs : Uncounted s) (h : UnixSockIpcClient.step size baseFd s a = some t) :
    Uncounted t := by
  cases countMove_of_step h with
  | same hregistered hcount hexited =>
      cases hs with
      | connected hregistered' hcount' =>
          exact .connected (hregistered.trans hregistered') (hcount.trans hcount')
      | dropped hregistered' hcount' hpc =>
          exact .dropped (hregistered.trans hregistered') (hcount.trans hcount') (hexited hpc)
  | dropped hpc hdrop =>
      cases hs with
      | connected _ hcount =>
          subst hdrop
          refine .dropped rfl ?_ rfl
          rw [State.dropConnection, hcount]
          rfl
      | dropped _ _ hpc' => exact absurd hpc' hpc

theorem Uncounted.ne (hs : Uncounted s) : s.connectionCount.toNat ≠ s.established := by
  cases hs with
  | connected hregistered hcount =>
      rw [State.established, hregistered, hcount]
      decide
  | dropped hregistered hcount =>
      rw [State.established, hregistered, hcount]
      decide

end UnixSockIpcClient

/-! ### Main result -/

/-- **`m_ConnectionCount` is right on the server and wrong on the client.** In every run of the
server, until it leaves the main loop, the count is the number of connections that are open, and no
step lowers it from 0. In every run of a connected client it differs from that number at every
moment. -/
theorem connection_count_iff_server (size baseFd : Nat) (buffer : Nat → UInt8) :
    (∀ acts s,
      (UnixSockIpcServer.machine size baseFd).Steps UnixSockIpcServer.DescriptorsAreInts
        (UnixSockIpcServer.initial buffer) acts →
      (UnixSockIpcServer.machine size baseFd).exec (UnixSockIpcServer.initial buffer) acts =
        some s →
      UnixSockIpcServer.Draining s.pc = false →
      s.connectionCount.toNat = s.openFds.ncard ∧
        (s.connectionCount = 0 → ∀ a t, UnixSockIpcServer.step size baseFd s a = some t →
          t.connectionCount ≠ s.connectionCount - 1)) ∧
    ∀ acts s,
      (UnixSockIpcClient.machine size baseFd).exec (UnixSockIpcClient.initial buffer) acts =
        some s →
      s.connectionCount.toNat ≠ s.established := by
  constructor
  · intro acts s hsteps hrun hmain
    have hs : UnixSockIpcServer.Counted baseFd s := Machine.exec_preserves_of_steps
      (fun _ _ _ hs hints hstep => hs.step hints hstep)
      (UnixSockIpcServer.counted_initial baseFd buffer) hsteps hrun
    exact ⟨hs.count hmain, fun hzero a t hstep => hs.not_wrapped hmain hstep hzero⟩
  · intro acts s hrun
    have hs : UnixSockIpcClient.Uncounted s := Machine.exec_preserves
      (fun _ _ _ hs hstep => hs.step hstep) (.connected rfl rfl) hrun
    exact hs.ne

theorem connection_count_one_accepted :
    ∃ s, (UnixSockIpcServer.machine 8 3).exec (UnixSockIpcServer.initial fun _ => 0)
        [.connect, .thread .none, .thread (.events [⟨3, false, true⟩]), .thread (.accepted 7)] =
          some s ∧
      s.connectionCount.toNat = s.openFds.ncard ∧ s.connectionCount = 1 :=
  have hints : (UnixSockIpcServer.machine 8 3).Steps UnixSockIpcServer.DescriptorsAreInts
      (UnixSockIpcServer.initial fun _ => 0)
      [.connect, .thread .none, .thread (.events [⟨3, false, true⟩]), .thread (.accepted 7)] :=
    fun _ _ => ⟨trivial, fun _ _ => ⟨trivial, fun _ _ => ⟨trivial, fun _ _ =>
      ⟨(by decide : 7 < 2 ^ 31), trivial⟩⟩⟩⟩
  ⟨_, rfl, ((connection_count_iff_server 8 3 fun _ => 0).1 _ _ hints rfl rfl).1, rfl⟩

/-- A client that has connected, and the same after the server has hung up. -/
theorem client_count_wraps :
    (UnixSockIpcClient.initial fun _ => 0).established = 1 ∧
      (UnixSockIpcClient.initial fun _ => 0).connectionCount = 0 ∧
      ∃ s, (UnixSockIpcClient.machine 8 3).exec (UnixSockIpcClient.initial fun _ => 0)
          [.peerClose, .thread .none, .thread (.events [⟨3, true, false⟩]), .thread .none] =
            some s ∧
        s.established = 0 ∧ s.connectionCount = 4294967295 :=
  ⟨rfl, rfl, _, rfl, rfl, rfl⟩

end MatrixTransposer
