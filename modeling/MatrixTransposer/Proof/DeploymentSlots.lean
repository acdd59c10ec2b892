import MatrixTransposer.Proof.DeploymentSession
import MatrixTransposer.Proof.SlotRelease

/-!
# No slot is lost

A client keeps its slot until the server takes its unsubscription. The call of `RemoveClient` that
this begins leaves nothing of the client in the bank, and a process that never subscribes leaves
nothing either; so the bank holds no more than the clients that are still there.
-/

namespace MatrixTransposer.Deployment

open Lib
open ClientBankHandoff (InUse)
open RequestCycle (Subscribed)
open TransposeServer (BeingRemoved Forgotten HasSlot Nameless SoleName SparesClient adding removing)

variable {cfg : Config} {s t : State} {pid p : UInt32} {fd : Nat}

/-- The client's unsubscription is on its way. -/
structure Held (cfg : Config) (s : State) (pid : UInt32) : Prop where
  queue : s.toServer (cfg.socket pid) = [cfg.unsubscribeMessage pid]
  spared : SparesClient pid s.cycle
  subscribed : ∃ slot, Subscribed pid slot s.cycle

/-- The server has taken the client's unsubscription, or the client has never subscribed. -/
structure Released (cfg : Config) (s : State) (pid : UInt32) : Prop where
  queue : s.toServer (cfg.socket pid) = []
  added : adding s.cycle ≠ some pid
  cleared : BeingRemoved pid s.cycle ∨ Forgotten pid s.cycle

/-- The client's subscription has not been handled. -/
def Fresh (cfg : Config) (s : State) (pid : UInt32) : Prop :=
  (s.phase pid).early = true ∨
    ∃ message ∈ s.toServer (cfg.socket pid), message.type = .subscribe

structure SlotLife (cfg : Config) (s : State) (pid : UInt32) : Prop where
  sole : SoleName pid s.cycle
  fresh : Fresh cfg s pid → Nameless pid s.cycle
  leaves : (s.phase pid).leaving = true → Held cfg s pid ∨ Released cfg s pid

/-! ## The client's messages -/

theorem Session.not_adding_of_fresh (h : Session cfg s pid) (hfresh : Fresh cfg s pid) :
    adding s.cycle ≠ some pid := by
  intro hadding
  rcases hfresh with hearly | ⟨message, hmessage, htype⟩
  · cases (h.not_early_of_adding hadding).symm.trans hearly
  · have honce := h.once
    have hpos : 0 < (s.toServer (cfg.socket pid)).countP fun message =>
        message.type = .subscribe :=
      List.countP_pos_iff.mpr ⟨message, hmessage, decide_eq_true htype⟩
    rw [State.openSteps, if_pos hadding] at honce
    omega

/-- A client that needs the server has nothing on its way but its subscription. -/
theorem Session.queue_eq_nil (h : Session cfg s pid) (hreach : (machine cfg).Reachable s)
    (hstays : (s.phase pid).leaving = false)
    (hcount : (s.toServer (cfg.socket pid)).countP (fun message => message.type = .subscribe) = 0) :
    s.toServer (cfg.socket pid) = [] := by
  apply List.eq_nil_iff_forall_not_mem.mpr
  intro message hmessage
  obtain ⟨p, -, -, hsends⟩ := (ownContexts_of_reachable hreach).messages _ message hmessage
  rcases hsends with rfl | rfl
  · have hnone := List.countP_eq_zero.mp hcount _ hmessage
    exact hnone rfl
  · exact (h.spared hstays).2 _ hmessage rfl

/-- Nobody but the client is added under its name. -/
theorem adding_of_cycle {a : TransposeServer.Action} {cycle : RequestCycle.State}
    (hreach : (machine cfg).Reachable s)
    (hother : ∀ context message, a = .server (.message context message) →
      message.type = .subscribe → message.senderId ≠ pid)
    (hstep : TransposeServer.step cfg.uninitialized s.cycle a = some cycle)
    (hadding : adding cycle = some pid) : adding s.cycle = some pid := by
  rcases TransposeServer.adding_step (serverInv_of_reachable hreach) hstep with heq | hnone |
    ⟨context, message, rfl, htype, -, hadds⟩
  · rwa [← heq]
  · cases hadding.symm.trans hnone
  · exact absurd (Option.some.inj (hadds.symm.trans hadding)) (hother context message rfl htype)

theorem BeingRemoved.not_adding {c : RequestCycle.State} (h : BeingRemoved p c) :
    adding c = none := by
  have hremoving := h.1
  unfold removing at hremoving
  unfold adding
  cases hpc : c.server.handler with
  | waitFlag slot value | loadBits slot value | storeBits slot value bits | setFlag slot value =>
      cases value with
      | false => rfl
      | true =>
          rw [hpc] at hremoving
          cases hremoving
  | addSearch | addReset | addBuild =>
      rw [hpc] at hremoving
      cases hremoving
  | idle | removeSearch | waitAck | unsubscribe => rfl

/-! ## Steps of the server -/

/-- A step that is not about a message of this client. -/
theorem SlotLife.of_cycle {a : TransposeServer.Action} (h : SlotLife cfg s pid) (hpid : pid ≠ 0)
    (hreach : (machine cfg).Reachable s)
    (hstep : TransposeServer.step cfg.uninitialized s.cycle a = some t.cycle)
    (hphase : t.phase pid = s.phase pid)
    (hqueue : t.toServer (cfg.socket pid) = s.toServer (cfg.socket pid))
    (hother : ∀ context message, a = .server (.message context message) →
      message.senderId ≠ pid) : SlotLife cfg t pid := by
  have hserver := serverInv_of_reachable hreach
  have hslots := TransposeServer.slotInv_of_reachable (cycle_reachable hreach)
  have hsession := session_of_reachable hreach pid
  have hadding : adding t.cycle = some pid → adding s.cycle = some pid :=
    adding_of_cycle hreach (fun context message heq _ => hother context message heq) hstep
  refine ⟨?_, ?_, ?_⟩
  · apply TransposeServer.soleName_step hpid ?_ h.sole hstep
    intro hnone hsome
    cases hnone.symm.trans (hadding hsome)
  · intro hfresh
    have hbefore : Fresh cfg s pid := by
      unfold Fresh at hfresh ⊢
      rwa [hphase, hqueue] at hfresh
    exact TransposeServer.nameless_step hpid (hsession.not_adding_of_fresh hbefore)
      (h.fresh hbefore) hstep
  · intro hleaving
    rw [hphase] at hleaving
    rcases h.leaves hleaving with hheld | hreleased
    · left
      obtain ⟨slot, hsubscribed⟩ := hheld.subscribed
      refine ⟨hqueue.trans hheld.queue, ?_, slot, ?_⟩
      · apply TransposeServer.sparesClient_step hheld.spared _ hstep
        exact fun context message heq hmine => hother context message heq hmine.2
      · exact TransposeServer.subscribed_step hserver hslots hheld.spared hsubscribed hstep
    · right
      refine ⟨hqueue.trans hreleased.queue, fun hsome => hreleased.added (hadding hsome), ?_⟩
      rcases hreleased.cleared with hremoved | hforgotten
      · exact TransposeServer.beingRemoved_step hserver h.sole hremoved hstep
      · exact Or.inr (TransposeServer.forgotten_step hpid hserver hreleased.added hforgotten hstep)

/-- The server takes a message of this client. -/
theorem SlotLife.of_own_message {message : ClientServerMessage} {rest : List ClientServerMessage}
    (h : SlotLife cfg s pid) (hpid : pid ≠ 0) (hreach : (machine cfg).Reachable s)
    (hnext : s.toServer (cfg.socket pid) = message :: rest)
    (hstep : TransposeServer.step cfg.uninitialized s.cycle
      (.server (.message { socket := cfg.socket pid } message)) = some t.cycle)
    (hphase : t.phase pid = s.phase pid) (hqueue : t.toServer (cfg.socket pid) = rest) :
    SlotLife cfg t pid := by
  have hsession := session_of_reachable hreach pid
  obtain ⟨p, -, hsocket, hsends⟩ :=
    (ownContexts_of_reachable hreach).messages _ message (hnext ▸ List.mem_cons_self)
  obtain rfl := cfg.socket_injective hsocket
  obtain ⟨hidle, -⟩ := begins_of_message hstep
  have hnone : adding s.cycle = none := by
    rw [adding, hidle]
    rfl
  have hnotAdding : adding s.cycle ≠ some pid := fun hsome => by cases hnone.symm.trans hsome
  have hfresh : message.type = .subscribe → Fresh cfg s pid := fun htype =>
    Or.inr ⟨message, hnext ▸ List.mem_cons_self, htype⟩
  refine ⟨?_, ?_, ?_⟩
  · apply TransposeServer.soleName_step hpid ?_ h.sole hstep
    intro _ hsome
    by_contra hnamed
    apply hnotAdding
    apply adding_of_cycle hreach ?_ hstep hsome
    rintro context m heq htype -
    cases heq
    exact hnamed (h.fresh (hfresh htype))
  · intro hafter
    have hbefore : Fresh cfg s pid := by
      unfold Fresh at hafter
      rw [hphase, hqueue] at hafter
      refine hafter.imp id ?_
      rintro ⟨m, hm, htype⟩
      exact ⟨m, hnext ▸ List.mem_cons_of_mem _ hm, htype⟩
    exact TransposeServer.nameless_step hpid hnotAdding (h.fresh hbefore) hstep
  · intro hleaving
    rw [hphase] at hleaving
    right
    rcases h.leaves hleaving with hheld | hreleased
    · obtain ⟨slot, hsubscribed⟩ := hheld.subscribed
      obtain ⟨rfl, rfl⟩ := List.cons.inj (hnext.symm.trans hheld.queue)
      have hremoved := TransposeServer.beingRemoved_of_message (serverInv_of_reachable hreach) rfl
        hsends.senderId hsubscribed hstep
      refine ⟨hqueue, ?_, Or.inl hremoved⟩
      rw [BeingRemoved.not_adding hremoved]
      exact fun hsome => by cases hsome
    · cases hnext.symm.trans hreleased.queue

/-! ## The client's own steps -/

/-- A step that leaves the server alone. -/
theorem SlotLife.of_server (h : SlotLife cfg s pid) (hserver : t.cycle.server = s.cycle.server)
    (hfresh : Fresh cfg t pid → Fresh cfg s pid)
    (hleaves : (t.phase pid).leaving = true → Held cfg t pid ∨ Released cfg t pid) :
    SlotLife cfg t pid := by
  obtain ⟨hsole, hnameless, -⟩ := h
  refine ⟨?_, ?_, hleaves⟩
  · unfold SoleName at hsole ⊢
    rwa [hserver]
  · intro hafter
    have hbefore := hnameless (hfresh hafter)
    unfold Nameless at hbefore ⊢
    rwa [hserver]

theorem SlotLife.of_same (h : SlotLife cfg s pid) (hserver : t.cycle.server = s.cycle.server)
    (hphase : (t.phase pid).early = (s.phase pid).early ∨ (t.phase pid).early = false)
    (hleaving : (t.phase pid).leaving = true → (s.phase pid).leaving = true)
    (hqueue : t.toServer (cfg.socket pid) = s.toServer (cfg.socket pid)) :
    SlotLife cfg t pid := by
  apply h.of_server hserver
  · intro hfresh
    unfold Fresh at hfresh ⊢
    rw [hqueue] at hfresh
    rcases hfresh with hearly | hqueued
    · rcases hphase with heq | hlate
      · exact Or.inl (heq.symm.trans hearly)
      · cases hlate.symm.trans hearly
    · exact Or.inr hqueued
  · intro hafter
    refine (h.leaves (hleaving hafter)).imp ?_ ?_
    · rintro ⟨hqueued, hspared, slot, hsubscribed⟩
      refine ⟨hqueue.trans hqueued, ?_, slot, ?_⟩
      · unfold SparesClient at hspared ⊢
        rwa [hserver]
      · exact ⟨hserver ▸ hsubscribed.bit, hserver ▸ hsubscribed.id,
          hserver ▸ hsubscribed.announced⟩
    · rintro ⟨hqueued, hadded, hcleared⟩
      unfold BeingRemoved Forgotten removing at hcleared
      unfold adding at hadded
      refine ⟨hqueue.trans hqueued, ?_, ?_⟩
      · unfold adding
        rwa [hserver]
      · unfold BeingRemoved Forgotten removing
        rwa [hserver]

theorem SlotLife.giveUp (h : SlotLife cfg s pid) (hreach : (machine cfg).Reachable s)
    (hphase : s.phase pid = .construct) : SlotLife cfg (s.setPhase pid (.exited 1)) pid := by
  have hsession := session_of_reachable hreach pid
  have hfresh : Fresh cfg s pid := Or.inl (congrArg Phase.early hphase)
  have honce := hsession.once
  have hearly : (s.phase pid).early = true := congrArg Phase.early hphase
  rw [State.openSteps, hearly, Bool.toNat_true] at honce
  refine h.of_server rfl (fun _ => hfresh) ?_
  intro _
  right
  refine ⟨?_, ?_, Or.inr (h.fresh hfresh).gone⟩
  · apply hsession.queue_eq_nil hreach (congrArg Phase.leaving hphase)
    omega
  · exact hsession.not_adding_of_fresh hfresh

theorem SlotLife.unsubscribe (h : SlotLife cfg s pid) (hreach : (machine cfg).Reachable s)
    (hphase : s.phase pid = .unsubscribe) :
    SlotLife cfg ((s.sendToServer (cfg.socket pid) (cfg.unsubscribeMessage pid)).setPhase pid
      .verify) pid := by
  have hsession := session_of_reachable hreach pid
  have hstays : (s.phase pid).leaving = false := congrArg Phase.leaving hphase
  have hone : s.responses cfg pid = 1 :=
    (subscription_handshake hreach pid).2.2.2.2 (Or.inr hphase)
  have honce := hsession.once
  rw [State.openSteps, hone] at honce
  have hempty : s.toServer (cfg.socket pid) = [] := by
    apply hsession.queue_eq_nil hreach hstays
    omega
  have hqueue : ((s.sendToServer (cfg.socket pid) (cfg.unsubscribeMessage pid)).setPhase pid
      .verify).toServer (cfg.socket pid) = [cfg.unsubscribeMessage pid] := by
    refine (Function.update_self _ _ _).trans ?_
    rw [hempty, List.nil_append]
  refine h.of_server rfl ?_ ?_
  · rintro (hearly | ⟨message, hmessage, htype⟩)
    · rw [setPhase_phase_self] at hearly
      cases hearly
    · rw [hqueue] at hmessage
      rw [List.mem_singleton.mp hmessage] at htype
      cases htype
  · intro _
    exact Or.inl ⟨hqueue, (hsession.spared hstays).1,
      hsession.granted (by rw [hone]; exact Nat.one_pos) hstays⟩

theorem SlotLife.of_main {a : Action} (h : SlotLife cfg s pid) (hpid : pid ≠ 0)
    (hreach : (machine cfg).Reachable s) (ha : a.caller = some pid)
    (hstep : step cfg s a = some t) : SlotLife cfg t pid := by
  cases move_of_step hstep with
  | giveUp hphase =>
      cases ha
      exact h.giveUp hreach hphase
  | @construct _ _ _ _ buffers memory hphase =>
      cases ha
      refine h.of_same rfl ?_ ?_ rfl
      · simp only [Function.update_self, hphase, Phase.early, true_or]
      · simp only [Function.update_self, Phase.leaving, Bool.false_eq_true, false_implies]
  | subscribe hphase =>
      cases ha
      refine h.of_server rfl (fun _ => Or.inl (congrArg Phase.early hphase)) ?_
      rw [setPhase_phase_self]
      exact fun hleaving => by cases hleaving
  | sleep => exact h
  | begin | finish =>
      cases ha
      refine h.of_same rfl ?_ ?_ rfl
      · exact Or.inr (congrArg Phase.early (setPhase_phase_self _ _ _))
      · rw [setPhase_phase_self]
        exact fun hleaving => by cases hleaving
  | client hphase hclient =>
      exact h.of_cycle hpid hreach hclient rfl rfl fun _ _ heq => by cases heq
  | unsubscribe hphase =>
      cases ha
      exact h.unsubscribe hreach hphase
  | @verify _ _ v hphase =>
      cases ha
      refine h.of_same rfl ?_ ?_ rfl
      · simp only [Function.update_self, Phase.early, or_true]
      · exact fun _ => congrArg Phase.leaving hphase
  | interrupt | receive | message | handler | added | send | start | join | dispatcher | worker
  | stop => cases ha

theorem SlotLife.of_other {a : Action} (h : SlotLife cfg s pid) (hpid : pid ≠ 0)
    (hreach : (machine cfg).Reachable s) (ha : a.caller ≠ some pid)
    (hstep : step cfg s a = some t) : SlotLife cfg t pid := by
  have hphase := (sameClient_of_step hreach ha hstep).phase
  have hsocket : ∀ {p}, a.caller = some p → cfg.socket pid ≠ cfg.socket p := by
    intro p hp hs
    rw [cfg.socket_injective hs] at ha
    exact ha hp
  have hsame : t.cycle.server = s.cycle.server →
      t.toServer (cfg.socket pid) = s.toServer (cfg.socket pid) → SlotLife cfg t pid := by
    intro hserver hqueue
    apply h.of_same hserver (Or.inl (congrArg Phase.early hphase)) _ hqueue
    rw [hphase]
    exact id
  cases move_of_step hstep with
  | giveUp | construct | begin | finish | verify | receive | send | start | worker =>
      exact hsame rfl rfl
  | subscribe | unsubscribe => exact hsame rfl (sendToServer_of_ne (hsocket rfl))
  | sleep => exact h
  | @message fd message rest cycle _ hnext hmessage =>
      obtain ⟨p, -, rfl, hsends⟩ :=
        (ownContexts_of_reachable hreach).messages fd message (hnext ▸ List.mem_cons_self)
      by_cases heq : pid = p
      · subst heq
        exact h.of_own_message hpid hreach hnext hmessage rfl (Function.update_self _ _ _)
      · refine h.of_cycle hpid hreach hmessage rfl ?_ ?_
        · exact Function.update_of_ne (fun hs => heq (cfg.socket_injective hs)) _ _
        · intro context m hm hid
          cases hm
          exact heq (hid.symm.trans hsends.senderId)
  | client _ hcycle | interrupt hcycle | handler _ hcycle | added _ hcycle | join _ _ _ hcycle
  | dispatcher _ hcycle | stop hcycle =>
      exact h.of_cycle hpid hreach hcycle rfl rfl fun _ _ heq => by cases heq

theorem slotLife_of_reachable (h : (machine cfg).Reachable s) (hpid : pid ≠ 0) :
    SlotLife cfg s pid := by
  have hinit : ∀ s, (machine cfg).init s → SlotLife cfg s pid := by
    rintro s ⟨memory, rfl⟩
    have hnameless : Nameless pid (initial cfg memory).cycle := fun _ hid => hpid hid.symm
    exact ⟨hnameless.sole _, fun _ => hnameless, fun hleaving => by cases hleaving⟩
  apply h.induction (I := fun s => SlotLife cfg s pid) hinit
  intro s a t hs hlife hstep
  by_cases ha : a.caller = some pid
  · exact hlife.of_main hpid hs ha hstep
  · exact hlife.of_other hpid hs ha hstep

/-! ## The slots of the bank -/

/-- No process has the identifier 0. -/
theorem pid_ne_zero_of_reachable (h : (machine cfg).Reachable s)
    (hphase : s.phase pid ≠ .construct) : pid ≠ 0 := by
  rintro rfl
  apply hphase
  have hinit : ∀ s, (machine cfg).init s → s.phase 0 = .construct := by
    rintro s ⟨memory, rfl⟩
    rfl
  apply h.induction (I := fun s => s.phase 0 = .construct) hinit
  intro s a t hs hwaits hstep
  by_cases ha : a.caller = some 0
  · cases a with
    | construct pid throws fails dist =>
        cases ha
        obtain ⟨⟨-, hpid, -⟩, -⟩ := Option.ite_none_right_eq_some.mp hstep
        exact absurd rfl hpid
    | main pid =>
        cases ha
        have hmain : mainStep cfg s 0 = some t := hstep
        rw [mainStep, hwaits] at hmain
        cases hmain
    | _ => cases ha
  · exact (sameClient_of_step hs ha hstep).phase.trans hwaits

end MatrixTransposer.Deployment
