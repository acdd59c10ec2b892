import MatrixTransposer.Proof.DeploymentSlots

/-!
# While a subscription is handled

From the moment a client has sent its subscription until the call of `AddClient` for it has
returned, the client sleeps in the loop that waits for the response. So it is there, with everything
it has constructed, while the server sets up its context.
-/

namespace MatrixTransposer.Deployment

open Lib
open TransposeServer (adding)

variable {cfg : Config} {s t : State} {pid : UInt32} {a : Action}

/-- The client's subscription is on its way or being handled. -/
def Subscribing (cfg : Config) (s : State) (pid : UInt32) : Prop :=
  (∃ message ∈ s.toServer (cfg.socket pid), message.type = .subscribe) ∨
    adding s.cycle = some pid

/-- The subscription of the client has not been handled to the end. -/
def Unhandled (cfg : Config) (s : State) (pid : UInt32) : Prop :=
  (s.phase pid).early = true ∨ Subscribing cfg s pid

theorem Subscribing.one_le (h : Subscribing cfg s pid) :
    1 ≤ (s.toServer (cfg.socket pid)).countP (fun message => message.type = .subscribe) +
      (if adding s.cycle = some pid then 1 else 0) := by
  rcases h with ⟨message, hmessage, htype⟩ | hadding
  · have hpos : 0 < (s.toServer (cfg.socket pid)).countP fun message =>
        message.type = .subscribe :=
      List.countP_pos_iff.mpr ⟨message, hmessage, decide_eq_true htype⟩
    omega
  · rw [if_pos hadding]
    omega

theorem Subscribing.not_received (h : Subscribing cfg s pid) (hsession : Session cfg s pid) :
    s.subscribeResponseReceived pid = false := by
  apply Bool.eq_false_of_not_eq_true
  intro hreceived
  have hresponses : 1 ≤ s.responses cfg pid := by
    rw [State.responses, if_pos hreceived]
    omega
  have honce := hsession.once
  have hone := h.one_le
  rw [State.openSteps] at honce
  omega

/-- A subscription begins with the step in which the client sends it. -/
theorem subscribing_of_step (hreach : (machine cfg).Reachable s) (hstep : step cfg s a = some t)
    (h : Subscribing cfg t pid) :
    Subscribing cfg s pid ∨ a = .main pid ∧ s.phase pid = .subscribe := by
  have hkeep : t.toServer = s.toServer → adding t.cycle = adding s.cycle →
      Subscribing cfg s pid := by
    intro hqueue hadding
    unfold Subscribing at h ⊢
    rwa [hqueue, hadding] at h
  have hcycle : ∀ {ca : TransposeServer.Action}, t.toServer = s.toServer →
      (∀ context message, ca ≠ .server (.message context message)) →
      TransposeServer.step cfg.uninitialized s.cycle ca = some t.cycle →
      Subscribing cfg s pid := by
    intro ca hqueue hquiet hmove
    rcases h with ⟨message, hmessage, htype⟩ | hadding
    · exact Or.inl ⟨message, hqueue ▸ hmessage, htype⟩
    · exact Or.inr (adding_of_cycle hreach (fun context message heq =>
        absurd heq (hquiet context message)) hmove hadding)
  cases move_of_step hstep with
  | giveUp | construct | begin | finish | verify | receive | send | start | worker =>
      exact Or.inl (hkeep rfl rfl)
  | sleep => exact Or.inl h
  | @subscribe p hphase =>
      by_cases heq : pid = p
      · subst heq
        exact Or.inr ⟨rfl, hphase⟩
      · left
        refine h.imp ?_ id
        rintro ⟨message, hmessage, htype⟩
        change message ∈ (s.sendToServer (cfg.socket p) (cfg.subscribeMessage p)).toServer
          (cfg.socket pid) at hmessage
        rw [sendToServer_of_ne fun hsocket => heq (cfg.socket_injective hsocket)] at hmessage
        exact ⟨message, hmessage, htype⟩
  | @unsubscribe p =>
      left
      refine h.imp ?_ id
      rintro ⟨message, hmessage, htype⟩
      change message ∈ Function.update s.toServer (cfg.socket p)
        (s.toServer (cfg.socket p) ++ [cfg.unsubscribeMessage p]) (cfg.socket pid) at hmessage
      by_cases heq : pid = p
      · subst heq
        rw [Function.update_self] at hmessage
        rcases List.mem_append.mp hmessage with hold | hnew
        · exact ⟨message, hold, htype⟩
        · rw [List.mem_singleton.mp hnew] at htype
          cases htype
      · rw [Function.update_of_ne fun hsocket => heq (cfg.socket_injective hsocket)] at hmessage
        exact ⟨message, hmessage, htype⟩
  | @message fd message rest cycle _ hnext hmessage =>
      left
      obtain ⟨p, -, rfl, hsends⟩ :=
        (ownContexts_of_reachable hreach).messages fd message (hnext ▸ List.mem_cons_self)
      rcases h with ⟨m, hm, htype⟩ | hadding
      · left
        change m ∈ Function.update s.toServer (cfg.socket p) rest (cfg.socket pid) at hm
        by_cases heq : pid = p
        · subst heq
          rw [Function.update_self] at hm
          exact ⟨m, hnext ▸ List.mem_cons_of_mem _ hm, htype⟩
        · rw [Function.update_of_ne fun hsocket => heq (cfg.socket_injective hsocket)] at hm
          exact ⟨m, hm, htype⟩
      · by_cases hmine : message.type = .subscribe ∧ message.senderId = pid
        · obtain rfl : p = pid := hsends.senderId.symm.trans hmine.2
          exact Or.inl ⟨message, hnext ▸ List.mem_cons_self, hmine.1⟩
        · right
          apply adding_of_cycle hreach ?_ hmessage hadding
          rintro context m heq htype hid
          cases heq
          exact hmine ⟨htype, hid⟩
  | client _ hmove | interrupt hmove | handler _ hmove | added _ hmove | join _ _ _ hmove
  | dispatcher _ hmove | stop hmove =>
      exact Or.inl (hcycle rfl (fun _ _ heq => by cases heq) hmove)

/-- **The client waits.** While its subscription is on its way or being handled it is in the loop
that waits for the response. -/
theorem awaitResponse_of_subscribing (hreach : (machine cfg).Reachable s)
    (h : Subscribing cfg s pid) : s.phase pid = .awaitResponse := by
  have hinit : ∀ s, (machine cfg).init s →
      (Subscribing cfg s pid → s.phase pid = .awaitResponse) := by
    rintro s ⟨memory, rfl⟩ (⟨message, hmessage, -⟩ | hadding)
    · cases hmessage
    · cases hadding
  apply hreach.induction (I := fun s => Subscribing cfg s pid → s.phase pid = .awaitResponse)
    hinit ?_ h
  intro s a t hs hwaits hstep hafter
  by_cases ha : a.caller = some pid
  · rcases subscribing_of_step hs hstep hafter with hbefore | ⟨rfl, hphase⟩
    · have hphase := hwaits hbefore
      have hreceived := hbefore.not_received (session_of_reachable hs pid)
      cases a with
      | construct p throws fails dist =>
          cases ha
          obtain ⟨⟨hconstruct, -⟩, -⟩ := Option.ite_none_right_eq_some.mp hstep
          cases hphase.symm.trans hconstruct
      | main p =>
          cases ha
          have hmain : mainStep cfg s pid = some t := hstep
          rw [mainStep, hphase] at hmain
          dsimp only at hmain
          rw [hreceived, if_neg Bool.false_ne_true] at hmain
          cases hmain
          exact hphase
      | _ => cases ha
    · have hmain : mainStep cfg s pid = some t := hstep
      rw [mainStep, hphase] at hmain
      cases hmain
      exact setPhase_phase_self _ _ _
  · rcases subscribing_of_step hs hstep hafter with hbefore | ⟨rfl, -⟩
    · exact (sameClient_of_step hs ha hstep).phase.trans (hwaits hbefore)
    · exact absurd rfl ha

theorem Phase.early_of_step (hreach : (machine cfg).Reachable s) (hstep : step cfg s a = some t)
    (hearly : (t.phase pid).early = true) : (s.phase pid).early = true := by
  by_cases ha : a.caller = some pid
  · cases move_of_step hstep with
    | giveUp | begin | finish | unsubscribe | subscribe =>
        cases ha
        rw [setPhase_phase_self] at hearly
        cases hearly
    | construct hphase =>
        cases ha
        exact congrArg Phase.early hphase
    | verify =>
        cases ha
        simp only [Function.update_self] at hearly
        cases hearly
    | sleep | client => exact hearly
    | interrupt | receive | message | handler | added | send | start | join | dispatcher | worker
    | stop => cases ha
  · rwa [← (sameClient_of_step hreach ha hstep).phase]

/-- Once the subscription has been handled it stays so. -/
theorem unhandled_of_step (hreach : (machine cfg).Reachable s) (hstep : step cfg s a = some t)
    (h : Unhandled cfg t pid) : Unhandled cfg s pid := by
  rcases h with hearly | hsubscribing
  · exact Or.inl (Phase.early_of_step hreach hstep hearly)
  · rcases subscribing_of_step hreach hstep hsubscribing with hbefore | ⟨-, hphase⟩
    · exact Or.inr hbefore
    · exact Or.inl (congrArg Phase.early hphase)

theorem Unhandled.not_leaving (hreach : (machine cfg).Reachable s) (h : Unhandled cfg s pid) :
    (s.phase pid).leaving = false := by
  rcases h with hearly | hsubscribing
  · cases hphase : s.phase pid with
    | construct | subscribe | awaitResponse | requests | unsubscribe => rfl
    | verify | exited =>
        rw [hphase] at hearly
        cases hearly
  · exact congrArg Phase.leaving (awaitResponse_of_subscribing hreach hsubscribing)

/-- Nothing in the bank bears the id of a client whose subscription has not been taken. -/
theorem nameless_of_early (hreach : (machine cfg).Reachable s) (hpid : pid ≠ 0)
    (hearly : (s.phase pid).early = true) (slot : Fin maxClients) :
    (s.cycle.server.workspace.clientBank slot).id ≠ pid :=
  (slotLife_of_reachable hreach hpid).fresh (Or.inl hearly) slot

end MatrixTransposer.Deployment
