import MatrixTransposer.Proof.ClientSlots
import MatrixTransposer.Proof.RequestCycle

/-!
# Round robin

When the dispatcher has served a client it passes over no other client that waits before it comes to
the first one again. In the lap in which it serves client `i` it comes to no other slot of `i`; if
the slot of `j` is still to come it serves `j` there. Otherwise it serves `j` in the next lap before
it comes to the slot of `i`, for at most one bit of its copy has changed meanwhile, and that bit
cannot have moved `i` to a slot before that of `j`.
-/

namespace MatrixTransposer.TransposeServer

open Lib
open ClientBankHandoff hiding State
open RequestCycle (State Client WorkPc Stage Event ServerInv Subscribed OnCourse)

variable {uninitialized : Int32} {s t u : State} {i j bufferIndex : UInt32}
  {slot home : Fin maxClients}

/-! ## A request that is not served yet -/

/-- The client's `Enqueue` has returned, and its request has not been transposed. -/
def Unserved (pid : UInt32) (s : State) : Prop :=
  ∃ stage bufferIndex, (s.clients pid).At stage (s.workOn pid) ∧
    (stage = .posted bufferIndex ∨ stage = .taken bufferIndex)

theorem unserved_of_history {history : List Event} (h : RequestCycle.ClientInv s j history)
    (hless : (history.filterMap Event.transposed?).length <
      (history.filterMap Event.enqueued?).length) : Unserved j s := by
  obtain ⟨stage, hat, hrounds⟩ := h
  have hlength := hrounds.length_filterMap RequestCycle.filterMap_transposed
    RequestCycle.filterMap_enqueued
  cases stage with
  | posted b => exact ⟨_, b, hat, Or.inl rfl⟩
  | taken b => exact ⟨_, b, hat, Or.inr rfl⟩
  | calling b =>
      change _ + 1 = _ + 1 at hlength
      omega
  | resting | transposed | raised =>
      change _ + 0 = _ + 0 at hlength
      omega

theorem Unserved.waiting (h : Unserved j s) :
    ∃ repetition bufferIndex, (s.clients j).Waiting repetition bufferIndex := by
  obtain ⟨stage, b, hat, hstage⟩ := h
  have hmain := hat.main
  cases hpc : (s.clients j).main with
  | callWait repetition bufferIndex => exact ⟨repetition, bufferIndex, Or.inl hpc⟩
  | wait repetition bufferIndex => exact ⟨repetition, bufferIndex, Or.inr hpc⟩
  | loop | enqueue | done =>
      rw [hpc] at hmain
      rcases hstage with rfl | rfl <;> cases hmain.1

theorem Unserved.not_woken (h : Unserved j s) : ¬ RequestCycle.Woken j s := by
  obtain ⟨stage, b, hat, hstage⟩ := h
  rintro ⟨hone, -⟩
  have hword := hat.word
  rcases hstage with rfl | rfl <;> cases hone.symm.trans hword

theorem unserved_of_localMove {c c' : Client} {stage after : Stage} {work work' : WorkPc}
    {own : Bool} {events : List Event}
    (h : RequestCycle.LocalMove c stage work own c' after work' events)
    (hstage : stage = .posted bufferIndex ∨ stage = .taken bufferIndex)
    (hshows : ∀ b, .transposed b ∉ events) :
    after = .posted bufferIndex ∨ after = .taken bufferIndex := by
  cases h with
  | interrupt | leave | other => exact hstage
  | main hmain =>
      cases hmain with
      | callWait | wait => exact hstage
      | call | next | finish | enqueue | enqueued | waited => simp at hstage
  | serve hserve =>
      cases hserve with
      | dequeued => simpa using hstage
      | transpose => exact absurd (List.mem_singleton_self _) (hshows _)
      | callDequeue | dequeue | gaveUp | wakeAll => exact hstage
      | callWake | raise => simp at hstage

theorem Unserved.step {a : RequestCycle.Action} (h : Unserved j s) (hserver : ServerInv s)
    (hstep : RequestCycle.step uninitialized s a = some t)
    (hshows : ∀ b, .transposed b ∉ RequestCycle.observe j s a) : Unserved j t := by
  obtain ⟨stage, b, hat, hstage⟩ := h
  obtain ⟨after, hmove, hat'⟩ := RequestCycle.localStep_of_step hserver hat hstep
  exact ⟨after, b, hat', unserved_of_localMove hmove hstage hshows⟩

/-! ## The turn -/

/-- The work on the slot does not come to a call of `TransposeTiledMultiThreaded` any more. -/
def Ending : WorkPc → Prop
  | .callWake | .wake | .leave _ => True
  | _ => False

/-- In this lap the dispatcher has done with the slot, but perhaps for waking its client. -/
def Past (home : Fin maxClients) (s : State) : Prop :=
  match s.server.dispatcher with
  | .scan p => home.val < p
  | .use k => home < k ∨ home = k ∧ Ending s.work
  | _ => False

/-- Client `i` is in the dispatcher's copy, on this slot. -/
def Holds (i : UInt32) (home : Fin maxClients) (s : State) : Prop :=
  getBit s.server.localValidClientsBitSet home = true ∧
    (s.server.workspace.clientBank home).id = i

/-- The dispatcher has still to take up what has been published. -/
def BeforeTake (s : State) : Prop :=
  s.server.dispatcher = .loop ∨ s.server.dispatcher = .loadFlag ∨ s.server.dispatcher = .loadBits

/-- It is the turn of client `j`: the dispatcher, which has served `i` on its slot `home`, comes to
the slot of `j` before it comes to `i` again, in this lap or in the next. -/
structure Turn (i : UInt32) (home : Fin maxClients) (j : UInt32) (slot : Fin maxClients)
    (s : State) : Prop where
  only : ∀ k : Fin maxClients, getBit s.server.localValidClientsBitSet k = true →
    (s.server.workspace.clientBank k).id = i → k = home
  lap : Past home s ∧ Holds i home s ∧ (slot < home ∨ OnCourse j slot s) ∨
    slot < home ∧ OnCourse j slot s ∧ (BeforeTake s → Holds i home s)

theorem ending_of_serve {c c' : Client} {work work' : WorkPc} (h : Ending work)
    (hserve : c.serve work = some (c', work')) : Ending work' := by
  cases work with
  | callDequeue | dequeue | transpose => exact h.elim
  | callWake =>
      obtain ⟨futex, -, heq⟩ := Option.map_eq_some_iff.mp hserve
      cases heq
      trivial
  | wake =>
      obtain ⟨futex, -, heq⟩ := Option.map_eq_some_iff.mp hserve
      obtain ⟨-, rfl⟩ := Prod.mk.inj heq
      split <;> trivial
  | leave => cases hserve

/-- Between two laps it is the second lap that is to come. -/
theorem Turn.between (h : Turn i home j slot s)
    (hpc : BeforeTake s ∨ s.server.dispatcher = .clearFlag) :
    slot < home ∧ OnCourse j slot s ∧ (BeforeTake s → Holds i home s) := by
  apply h.lap.resolve_left
  rintro ⟨hpast, -⟩
  rcases hpc with (hpc | hpc | hpc) | hpc <;> simp [Past, hpc] at hpast

/-- The dispatcher goes on in its scan, or from one lap to the next. -/
theorem Turn.scan {server : ClientBankHandoff.State} (h : Turn i home j slot s)
    (hslots : SlotInv s.server) (huse : ∀ k, s.server.dispatcher ≠ .use k)
    (hcourse : OnCourse j slot s → OnCourse j slot { s with server := server })
    (hmove : DispatcherMove s.server server) :
    Turn i home j slot { s with server := server } := by
  have hlap := h.lap
  cases hmove with
  | again hpc =>
      obtain ⟨hlt, hon, hholds⟩ := h.between (Or.inl (Or.inl hpc))
      exact ⟨h.only, Or.inr ⟨hlt, hcourse hon, fun _ => hholds (Or.inl hpc)⟩⟩
  | seen hpc =>
      obtain ⟨hlt, hon, hholds⟩ := h.between (Or.inl (Or.inr (Or.inl hpc)))
      exact ⟨h.only, Or.inr ⟨hlt, hcourse hon, fun _ => hholds (Or.inr (Or.inl hpc))⟩⟩
  | take hpc =>
      -- a slot of `i` in the new copy was in use before, and so was `home`
      obtain ⟨hlt, hon, hholds⟩ := h.between (Or.inl (Or.inr (Or.inr hpc)))
      obtain ⟨hcopy, hid⟩ := hholds (Or.inr (Or.inr hpc))
      refine ⟨?_, Or.inr ⟨hlt, hcourse hon, by simp [BeforeTake]⟩⟩
      intro k hk hkid
      exact hslots.distinct k home (Or.inl hk) (Or.inr hcopy) (hkid.trans hid.symm)
  | exit hpc =>
      obtain ⟨hlt, hon, -⟩ := h.between (Or.inl (Or.inl hpc))
      exact ⟨h.only, Or.inr ⟨hlt, hcourse hon, by simp [BeforeTake]⟩⟩
  | unseen hpc =>
      obtain ⟨hlt, hon, -⟩ := h.between (Or.inl (Or.inr (Or.inl hpc)))
      exact ⟨h.only, Or.inr ⟨hlt, hcourse hon, by simp [BeforeTake]⟩⟩
  | clear hpc =>
      obtain ⟨hlt, hon, -⟩ := h.between (Or.inr hpc)
      exact ⟨h.only, Or.inr ⟨hlt, hcourse hon, by simp [BeforeTake]⟩⟩
  | @enter k hpc =>
      refine ⟨h.only, hlap.imp ?_ ?_⟩
      · rintro ⟨hp, hholds, hon⟩
        simp only [Past, hpc] at hp
        exact ⟨Or.inl hp, hholds, hon.imp_right hcourse⟩
      · rintro ⟨hlt, hon, -⟩
        exact ⟨hlt, hcourse hon, by simp [BeforeTake]⟩
  | @skip p hpc hp' =>
      refine ⟨h.only, hlap.imp ?_ ?_⟩
      · rintro ⟨hp, hholds, hon⟩
        simp only [Past, hpc] at hp
        exact ⟨Nat.lt_succ_of_lt hp, hholds, hon.imp_right hcourse⟩
      · rintro ⟨hlt, hon, -⟩
        exact ⟨hlt, hcourse hon, by simp [BeforeTake]⟩
  | @wrap p hpc hp' =>
      -- the slot of `j` is not still to come
      have hoff : ¬ OnCourse j slot s := by
        simp only [OnCourse, hpc]
        rintro ⟨hle, -⟩
        have hslot := slot.isLt
        omega
      refine ⟨h.only, Or.inr ?_⟩
      rcases hlap with ⟨-, hholds, hlt | hon⟩ | ⟨-, hon, -⟩
      · exact ⟨hlt, trivial, fun _ => hholds⟩
      · exact absurd hon hoff
      · exact absurd hon hoff
  | leave hpc => exact absurd hpc (huse _)

theorem Turn.dispatcher {times : Option (UInt64 × UInt64)} (h : Turn i home j slot s)
    (hslots : SlotInv s.server) (hcourse : OnCourse j slot s → OnCourse j slot t)
    (hstep : RequestCycle.step uninitialized s (.server (.dispatcher times)) = some t) :
    Turn i home j slot t := by
  have hlap := h.lap
  cases RequestCycle.move_of_step hstep with
  | @serve _ k p c work huse hpid hserve =>
      refine ⟨h.only, hlap.imp ?_ ?_⟩
      · rintro ⟨hp, hholds, hon⟩
        simp only [Past, huse] at hp
        refine ⟨?_, hholds, hon.imp_right hcourse⟩
        simp only [Past, RequestCycle.State.setClient, huse]
        exact hp.imp_right fun hend => ⟨hend.1, ending_of_serve hend.2 hserve⟩
      · rintro ⟨hlt, hon, -⟩
        refine ⟨hlt, hcourse hon, ?_⟩
        simp [BeforeTake, RequestCycle.State.setClient, huse]
  | @leave _ k served server huse hleave hdispatcher =>
      obtain ⟨stats, rfl⟩ := (dispatcherMove_of_step hdispatcher).eq_of_use huse
      refine ⟨?_, hlap.imp ?_ ?_⟩
      · intro k hk hkid
        rw [id_serve] at hkid
        exact h.only k hk hkid
      · rintro ⟨hp, hholds, hon⟩
        simp only [Past, huse] at hp
        refine ⟨?_, ⟨hholds.1, id_serve.trans hholds.2⟩, hon.imp_right hcourse⟩
        have hle : home ≤ k := hp.elim le_of_lt fun hend => hend.1.le
        exact Nat.lt_succ_of_le hle
      · rintro ⟨hlt, hon, -⟩
        exact ⟨hlt, hcourse hon, by simp [BeforeTake]⟩
  | scan huse hdispatcher => exact h.scan hslots huse hcourse (dispatcherMove_of_step hdispatcher)
  | handle ha => exact absurd rfl (ha times)

/-- Nobody else moves the dispatcher, or touches a context that its copy holds. -/
theorem Turn.other {a : RequestCycle.Action} (h : Turn i home j slot s) (hserver : ServerInv s)
    (hcourse : OnCourse j slot s → OnCourse j slot t) (ha : a.isDispatcher = false)
    (hstep : RequestCycle.step uninitialized s a = some t) : Turn i home j slot t := by
  obtain ⟨hdispatcher, hcopy, hwork, hids⟩ :
      t.server.dispatcher = s.server.dispatcher ∧
        t.server.localValidClientsBitSet = s.server.localValidClientsBitSet ∧ t.work = s.work ∧
        ∀ k : Fin maxClients, getBit s.server.localValidClientsBitSet k = true →
          (t.server.workspace.clientBank k).id = (s.server.workspace.clientBank k).id := by
    cases RequestCycle.move_of_step hstep with
    | client | interrupt => exact ⟨rfl, rfl, rfl, fun _ _ => rfl⟩
    | serve | leave | scan => cases ha
    | handle hother hhandle =>
        obtain ⟨hdispatcher, hcopy⟩ := RequestCycle.dispatcher_of_handle hother hhandle
        refine ⟨hdispatcher, hcopy, rfl, ?_⟩
        intro k hk
        exact congrArg ClientContext.id
          (hserver.clientBank_of_handle hother hhandle (Or.inl hk))
  have hpast : Past home t ↔ Past home s := by
    unfold Past
    rw [hdispatcher, hwork]
  have hholds : Holds i home s → Holds i home t := by
    rintro ⟨hbit, hid⟩
    exact ⟨hcopy ▸ hbit, (hids home hbit).trans hid⟩
  refine ⟨?_, h.lap.imp ?_ ?_⟩
  · intro k hk hkid
    rw [hcopy] at hk
    exact h.only k hk ((hids k hk).symm.trans hkid)
  · rintro ⟨hp, hheld, hon⟩
    exact ⟨hpast.mpr hp, hholds hheld, hon.imp_right hcourse⟩
  · rintro ⟨hlt, hon, hheld⟩
    refine ⟨hlt, hcourse hon, ?_⟩
    intro hbefore
    unfold BeforeTake at hbefore
    rw [hdispatcher] at hbefore
    exact hholds (hheld hbefore)

theorem onCourse_step {a : RequestCycle.Action}
    (hreach : (RequestCycle.machine uninitialized).Reachable s)
    (hsubscribed : Subscribed j slot s) (hunserved : Unserved j s) (hunserved' : Unserved j t)
    (hstep : RequestCycle.step uninitialized s a = some t) (hcourse : OnCourse j slot s) :
    OnCourse j slot t := by
  obtain ⟨repetition, b, hwait⟩ := hunserved.waiting
  obtain ⟨stage, hat⟩ := RequestCycle.at_of_reachable hreach j
  obtain ⟨after, hmove, -⟩ := RequestCycle.localStep_of_step
    (RequestCycle.serverInv_of_reachable hreach) hat hstep
  rcases hmove.waiting hwait with hloop | hwait'
  · obtain ⟨repetition', b', hwait'⟩ := hunserved'.waiting
    unfold Client.Waiting at hwait'
    rw [hloop] at hwait'
    simp at hwait'
  · exact RequestCycle.onCourse_step hreach hsubscribed hwait hwait' hunserved.not_woken
      hunserved'.not_woken hcourse hstep

/-- While `j` is not served it stays its turn. -/
theorem Turn.step {a : Action} (hreach : (machine uninitialized).Reachable s)
    (h : Turn i home j slot s) (hsubscribed : Subscribed j slot s) (hunserved : Unserved j s)
    (hstep : step uninitialized s a = some t) (hshows : ∀ b, .transposed b ∉ observe j s a) :
    Turn i home j slot t ∧ Unserved j t := by
  have hreach' := requestCycle_reachable hreach
  have hserver := RequestCycle.serverInv_of_reachable hreach'
  rcases step_cases hstep with ⟨rfl, -⟩ | ⟨b, hb, hobserve⟩
  · exact ⟨h, hunserved⟩
  · rw [hobserve] at hshows
    have hunserved' := hunserved.step hserver hb hshows
    have hcourse := onCourse_step hreach' hsubscribed hunserved hunserved' hb
    refine ⟨?_, hunserved'⟩
    cases hd : b.isDispatcher with
    | true =>
        obtain ⟨times, rfl⟩ := RequestCycle.Action.eq_dispatcher hd
        exact h.dispatcher (slotInv_of_reachable hreach) hcourse hb
    | false => exact h.other hserver hcourse hd hb

/-! ## From one service to the next -/

/-- A request is transposed on the slot that the dispatcher uses. -/
theorem work_of_transposed {a : Action} (hserver : ServerInv s)
    (hshows : .transposed bufferIndex ∈ observe i s a) :
    ∃ times k, a = .server (.dispatcher times) ∧ s.server.dispatcher = .use k ∧
      s.work = .transpose bufferIndex ∧ (s.server.workspace.clientBank k).id = i ∧
      getBit s.server.localValidClientsBitSet k = true := by
  cases a with
  | client p =>
      simp only [observe, RequestCycle.observe] at hshows
      split at hshows
      · have hnone := (s.clients i).transposed_shows
        cases List.filterMap_eq_nil_iff.mp hnone _ hshows
      · cases hshows
  | interrupt => cases hshows
  | server a =>
      cases a with
      | message | handler | stop => cases hshows
      | dispatcher times =>
          simp only [observe, RequestCycle.observe] at hshows
          split at hshows
          case h_2 => cases hshows
          case h_1 k huse =>
            split at hshows
            case isFalse => cases hshows
            case isTrue hpid =>
              have hid := hserver.pid_eq huse hpid
              have hcopy := hserver.flag.2
              rw [huse] at hcopy
              refine ⟨times, k, rfl, huse, ?_, hid.symm, hcopy⟩
              cases hwork : s.work with
              | transpose b =>
                  rw [hwork] at hshows
                  cases List.mem_singleton.mp hshows
                  rfl
              | dequeue | wake => simp [Client.servingShows, hwork] at hshows
              | callDequeue | callWake | leave =>
                  rw [hwork] at hshows
                  cases hshows

/-- While it is the turn of `j`, client `i` is not served. -/
theorem Turn.not_served {a : Action} (h : Turn i home j slot s) (hserver : ServerInv s) :
    .transposed bufferIndex ∉ observe i s a := by
  intro hshows
  obtain ⟨times, k, rfl, huse, hwork, hid, hcopy⟩ := work_of_transposed hserver hshows
  obtain rfl := h.only k hcopy hid
  rcases h.lap with ⟨hpast, -⟩ | ⟨hlt, hon, -⟩
  · simp [Past, huse, hwork, Ending] at hpast
  · simp only [OnCourse, huse] at hon
    rcases hon with ⟨hlater, -⟩ | ⟨rfl, -⟩
    · exact lt_asymm hlt hlater
    · exact lt_irrefl _ hlt

/-- When client `i` has been served, it is the turn of every other client in the copy. -/
theorem turn_of_served {a : Action} (hreach : (machine uninitialized).Reachable s)
    (hstep : step uninitialized s a = some t) (hshows : .transposed bufferIndex ∈ observe i s a)
    (hne : j ≠ i) (hcopy : getBit s.server.localValidClientsBitSet slot = true)
    (hid : (t.server.workspace.clientBank slot).id = j) (hunserved : Unserved j s) :
    ∃ home, Turn i home j slot t ∧ Unserved j t := by
  have hserver := RequestCycle.serverInv_of_reachable (requestCycle_reachable hreach)
  obtain ⟨times, home, rfl, huse, hwork, hhome, hcopy'⟩ := work_of_transposed hserver hshows
  have hothers : ∀ b, .transposed b ∉ observe j s (.server (.dispatcher times)) := by
    intro b hb
    obtain ⟨-, k, -, huse', -, hk, -⟩ := work_of_transposed hserver hb
    cases huse.symm.trans huse'
    exact hne (hk.symm.trans hhome)
  have hdispatcher : RequestCycle.step uninitialized s (.server (.dispatcher times)) = some t :=
    hstep
  refine ⟨home, ?_, hunserved.step hserver hdispatcher hothers⟩
  cases RequestCycle.move_of_step hdispatcher with
  | @serve _ k p c work huse' hpid hserve =>
      cases huse.symm.trans huse'
      rw [hwork] at hserve
      cases hserve
      refine ⟨?_, Or.inl ⟨?_, ⟨hcopy', hhome⟩, ?_⟩⟩
      · intro k hk hkid
        exact (slotInv_of_reachable hreach).distinct k home (Or.inr hk) (Or.inr hcopy')
          (hkid.trans hhome.symm)
      · simp only [Past, RequestCycle.State.setClient, huse]
        exact Or.inr ⟨trivial, trivial⟩
      · have hslot : slot ≠ home := by
          rintro rfl
          exact hne (hid.symm.trans hhome)
        rcases lt_or_gt_of_ne hslot with hlt | hlt
        · exact Or.inl hlt
        · right
          simp only [OnCourse, RequestCycle.State.setClient, huse]
          exact Or.inl ⟨hlt, hcopy⟩
  | leave _ hleave => cases hwork.symm.trans hleave
  | scan hscan => exact absurd huse (hscan home)
  | handle ha => exact absurd rfl (ha times)

theorem Turn.exec {acts : List Action} (hreach : (machine uninitialized).Reachable s)
    (h : Turn i home j slot s) (hunserved : Unserved j s)
    (hsubscribed : (machine uninitialized).Along (Subscribed j slot) s acts)
    (hrun : (machine uninitialized).exec s acts = some t)
    (hshows : ∀ b, .transposed b ∉ (machine uninitialized).trace (observe j) s acts) :
    Turn i home j slot t := by
  induction acts generalizing s with
  | nil =>
      cases hrun
      exact h
  | cons a acts ih =>
      obtain ⟨r, hstep, hrest⟩ := Machine.exec_cons_eq_some.mp hrun
      rw [Machine.trace_cons hstep] at hshows
      simp only [List.mem_append, not_or] at hshows
      obtain ⟨h', hunserved'⟩ :=
        h.step hreach hsubscribed.head hunserved hstep fun b => (hshows b).1
      exact ih (hreach.step hstep) h' hunserved' (hsubscribed.tail hstep) hrest
        fun b => (hshows b).2

/-- **Round robin.** Between two services of client `i` every other client `j` is served that was in
the dispatcher's copy at the first of them, with a request enqueued and not yet served, and that
stays subscribed. -/
theorem served_between {s₀ : State} {before middle : List Action} {a c : Action}
    {firstIndex secondIndex : UInt32} (hinit : (machine uninitialized).init s₀)
    (hbefore : (machine uninitialized).exec s₀ before = some s)
    (hfirst : step uninitialized s a = some t)
    (hfirstServed : .transposed firstIndex ∈ observe i s a)
    (hmiddle : (machine uninitialized).exec t middle = some u)
    (hsecondServed : .transposed secondIndex ∈ observe i u c) (hne : j ≠ i)
    (hcopy : getBit s.server.localValidClientsBitSet slot = true)
    (hsubscribed : (machine uninitialized).Along (Subscribed j slot) t middle)
    (hwaits :
      let history := (machine uninitialized).trace (observe j) s₀ before
      (history.filterMap Event.transposed?).length <
        (history.filterMap Event.enqueued?).length) :
    ∃ bufferIndex,
      .transposed bufferIndex ∈ (machine uninitialized).trace (observe j) t middle := by
  have hreach : (machine uninitialized).Reachable s := ⟨s₀, before, hinit, hbefore⟩
  have hunserved := unserved_of_history (clientInv_of_exec hinit hbefore j) hwaits
  obtain ⟨home, hturn, hunserved'⟩ := turn_of_served hreach hfirst hfirstServed hne hcopy
    hsubscribed.head.id hunserved
  by_contra hnone
  have hnever : ∀ b, .transposed b ∉ (machine uninitialized).trace (observe j) t middle :=
    fun b hb => hnone ⟨b, hb⟩
  have hreach' := hreach.step hfirst
  have hturn' := hturn.exec hreach' hunserved' hsubscribed hmiddle hnever
  have hserver := RequestCycle.serverInv_of_reachable
    (requestCycle_reachable (hreach'.exec hmiddle))
  exact hturn'.not_served hserver hsecondServed

/-- Clients 7 and 8 have called `Wait` when client 7 is served. It is woken and enqueues its second
request at once, but client 8 is served before that. -/
theorem served_between_two_clients :
    ∃ t middle bufferIndex, (machine 0).Reachable t ∧
      .transposed bufferIndex ∈ (machine 0).trace (observe 8) t middle := by
  let start : State := RequestCycle.initial 1 (fun _ => 1) (fun _ => 2)
  let subscribe (pid : UInt32) (count : Nat) : List Action :=
    .server (.message { socket := 5 }
      { type := .subscribe, senderId := pid, param1 := 6, param2 := 6, param3 := 1 }) ::
      List.replicate count (.server (.handler false))
  let dispatch : Action := .server (.dispatcher none)
  let served : Action := .server (.dispatcher (some (0, 0)))
  let before : List Action :=
    subscribe 7 21 ++ List.replicate 4 dispatch ++ subscribe 8 22 ++ List.replicate 72 dispatch ++
      List.replicate 9 (.client 7) ++ List.replicate 9 (.client 8) ++ List.replicate 7 dispatch
  let middle : List Action :=
    List.replicate 3 dispatch ++ [served] ++ List.replicate 9 (.client 7) ++
      List.replicate 11 dispatch ++ [served] ++ List.replicate 72 dispatch
  let slot : Fin maxClients := ⟨1, by decide⟩
  have hserves : ((machine 0).exec start before).map (fun s =>
      (decide (.transposed 0 ∈ observe 7 s dispatch),
        getBit s.server.localValidClientsBitSet slot)) = some (true, true) := by decide +kernel
  have hruns : ((machine 0).exec start (before ++ dispatch :: middle)).map (fun u =>
      decide (.transposed 0 ∈ observe 7 u dispatch)) = some true := by decide +kernel
  have hstays : ((machine 0).exec start (before ++ [dispatch])).map (fun t =>
      (getBit t.server.workspace.validClientsBitSet slot,
        (t.server.workspace.clientBank slot).id, t.server.handler.isIdle)) =
      some (true, 8, true) := by decide +kernel
  obtain ⟨s, hbefore, hs⟩ := Option.map_eq_some_iff.mp hserves
  obtain ⟨u, hrun, hu⟩ := Option.map_eq_some_iff.mp hruns
  obtain ⟨t', hrun', ht⟩ := Option.map_eq_some_iff.mp hstays
  obtain ⟨s', hs', hrest⟩ := Machine.exec_append_eq_some.mp hrun
  obtain rfl : s = s' := Option.some.inj (hbefore.symm.trans hs')
  obtain ⟨t, hfirst, hmiddle⟩ := Machine.exec_cons_eq_some.mp hrest
  have hrun'' := Machine.exec_append_eq_some.mpr ⟨s, hbefore, Machine.exec_singleton.mpr hfirst⟩
  obtain rfl : t = t' := Option.some.inj (hrun''.symm.trans hrun')
  simp only [Prod.mk.injEq, decide_eq_true_eq] at hs hu ht
  have hannounced : t.server.handler ≠ .setFlag slot true := by
    intro hpc
    rw [hpc] at ht
    cases ht.2.2
  have hsubscribed : (machine 0).Along (Subscribed 8 slot) t middle := by
    refine Machine.Along.of_step (C := Subscribed 8 slot) ⟨ht.1, ht.2.1, hannounced⟩ ?_
    intro a ha r r' hr hstep
    have hcases : (∃ times, a = .server (.dispatcher times)) ∨ a = .client 7 := by
      simp only [middle, List.mem_append, List.mem_replicate, List.mem_singleton] at ha
      rcases ha with ((((⟨-, rfl⟩ | rfl) | ⟨-, rfl⟩) | ⟨-, rfl⟩) | rfl) | ⟨-, rfl⟩ <;>
        first | exact Or.inl ⟨_, rfl⟩ | exact Or.inr rfl
    rcases hcases with ⟨times, rfl⟩ | rfl
    · have hdispatcher : RequestCycle.step 0 r (.server (.dispatcher times)) = some r' := hstep
      exact hr.dispatcher hdispatcher
    · obtain ⟨c, -, rfl⟩ := Option.map_eq_some_iff.mp hstep
      exact ⟨hr.bit, hr.id, hr.announced⟩
  have hdispatch : step 0 s dispatch = some t := hfirst
  obtain ⟨b, hb⟩ := served_between ⟨1, _, _, rfl⟩ hbefore hdispatch hs.1 hmiddle hu (by decide) hs.2
    hsubscribed (by decide +kernel)
  exact ⟨t, middle, b, ⟨start, before ++ [dispatch], ⟨1, _, _, rfl⟩, hrun''⟩, hb⟩

end MatrixTransposer.TransposeServer
