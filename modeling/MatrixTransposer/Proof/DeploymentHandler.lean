import MatrixTransposer.Proof.DeploymentProgress
import MatrixTransposer.Proof.HandlerProgress
import MatrixTransposer.Proof.SlotRelease

/-!
# Every call of the handler returns

The socket thread loops on `clientBankUpdateAvailable` without sleeping. While the dispatcher goes
round, two of its laps clear the flag, however busy it is with requests, and nothing sets it but the
call itself. So a call of `AddClient` or `RemoveClient` ends after a bounded number of steps of its
own, if the dispatcher is given two laps before each of them.
-/

namespace MatrixTransposer.Deployment

open Lib
open ClientBankHandoff (HandlerPc)
open RequestCycle (Announced lap lapLeft)

variable {cfg : Config} {s t : State} {pc : HandlerPc}

def State.handler (s : State) : HandlerPc := s.cycle.server.handler

def State.flag (s : State) : Bool := s.cycle.server.workspace.clientBankUpdateAvailable

/-- The running call returns in the run. -/
def CallReturns (cfg : Config) (s : State) (acts : List Action) : Prop :=
  ∃ before t, before <+: acts ∧ (machine cfg).exec s before = some t ∧ t.handler = .idle

theorem CallReturns.of_idle (h : s.handler = .idle) (acts : List Action) :
    CallReturns cfg s acts := ⟨[], s, List.nil_prefix, rfl, h⟩

theorem CallReturns.append_left {before after : List Action}
    (hbefore : (machine cfg).exec s before = some t) (h : CallReturns cfg t after) :
    CallReturns cfg s (before ++ after) := by
  obtain ⟨earlier, u, ⟨later, rfl⟩, hearlier, hidle⟩ := h
  refine ⟨before ++ earlier, u, ?_, Machine.exec_append_eq_some.mpr ⟨t, hbefore, hearlier⟩, hidle⟩
  exact ⟨later, by rw [List.append_assoc]⟩

theorem CallReturns.append_right {before after : List Action} (h : CallReturns cfg s before) :
    CallReturns cfg s (before ++ after) := by
  obtain ⟨earlier, u, hearlier, hrun, hidle⟩ := h
  exact ⟨earlier, u, hearlier.trans (List.prefix_append _ _), hrun, hidle⟩

/-! ## What a step does to the running call -/

theorem handler_of_cycle {a : TransposeServer.Action} {c c' : RequestCycle.State}
    (hrunning : c.server.handler ≠ .idle)
    (hstep : TransposeServer.step cfg.uninitialized c a = some c') :
    c'.server.handler.callLeft < c.server.handler.callLeft ∨
      c'.server.handler = c.server.handler ∧
        (c.server.workspace.clientBankUpdateAvailable = false →
          c'.server.workspace.clientBankUpdateAvailable = false) := by
  cases TransposeServer.move_of_step hstep with
  | ignored | stop => exact Or.inr ⟨rfl, id⟩
  | add hidle | remove hidle => exact absurd hidle hrunning
  | handler hhandler =>
      refine (ClientBankHandoff.callLeft_of_step hhandler).imp_right ?_
      rintro ⟨-, -, rfl, rfl⟩
      exact ⟨rfl, id⟩
  | dispatcher hdispatcher =>
      right
      rcases TransposeServer.server_of_dispatcher hdispatcher with heq | ⟨slot, stats, -, heq⟩ |
        ⟨-, hmove⟩
      · rw [heq]
        exact ⟨rfl, id⟩
      · rw [heq]
        exact ⟨rfl, id⟩
      · refine ⟨ClientBankHandoff.handler_dispatcher hmove, ?_⟩
        generalize c'.server = server at hmove
        cases hmove with
        | clear => exact fun _ => rfl
        | again | exit | seen | unseen | take | enter | skip | wrap | leave => exact id
  | client hclient =>
      rw [TransposeServer.server_of_client hclient]
      exact Or.inr ⟨rfl, id⟩
  | interrupt hinterrupt =>
      rw [TransposeServer.server_of_interrupt hinterrupt]
      exact Or.inr ⟨rfl, id⟩

theorem handler_of_step {a : Action} (hrunning : s.handler ≠ .idle)
    (hstep : step cfg s a = some t) :
    t.handler.callLeft < s.handler.callLeft ∨
      t.handler = s.handler ∧ (s.flag = false → t.flag = false) := by
  rcases cycle_of_step hstep with heq | ⟨ca, hcycle, -⟩
  · rw [State.handler, State.handler, State.flag, State.flag, heq]
    exact Or.inr ⟨rfl, id⟩
  · exact handler_of_cycle hrunning hcycle

/-- The call's own step waits only while the flag is set. -/
theorem handler_of_handler {throws : Bool} (hstep : step cfg s (.handler throws) = some t) :
    t.handler.callLeft < s.handler.callLeft ∨
      s.handler.waits = true ∧ s.flag = true ∧ t.handler = s.handler := by
  have hcycle : TransposeServer.step cfg.uninitialized s.cycle (.server (.handler throws)) =
      some t.cycle := by
    cases move_of_step hstep with
    | handler _ hcycle | added _ hcycle => exact hcycle
  generalize hc : t.cycle = c at hcycle
  have hhandler : t.handler = c.server.handler := by rw [State.handler, hc]
  rw [hhandler]
  cases TransposeServer.move_of_step hcycle with
  | handler hmove =>
      refine (ClientBankHandoff.callLeft_of_step hmove).imp_right ?_
      rintro ⟨hwaits, hflag, -, heq⟩
      exact ⟨hwaits, hflag, heq⟩

/-! ## The flag is cleared -/

/-- The call waits for an announced update to be taken, which takes at most `n` steps of the
dispatcher: for each step of the lap it may have to start the threads as well. -/
structure Waits (cfg : Config) (pc : HandlerPc) (s : State) (n : Nat) : Prop where
  handler : s.handler = pc
  announced : ∃ m, Announced cfg.uninitialized s.cycle m ∧ 2 * m + s.threads.isNone.toNat ≤ n

/-- The call has gone on since it stood here, or can go on with its next step. -/
def Ready (pc : HandlerPc) (s : State) : Prop :=
  s.handler.callLeft < pc.callLeft ∨ s.handler = pc ∧ (pc.waits = true → s.flag = false)

theorem waits_step {a : Action} {n : Nat} (hrunning : pc ≠ .idle) (h : Waits cfg pc s n)
    (hstep : step cfg s a = some t) :
    (t.cycle.server.dispatcher = .exited ∨ Ready pc t) ∨
      ∃ m, Waits cfg pc t m ∧ m + (if a.isDispatcher then 1 else 0) ≤ n := by
  obtain ⟨rfl, m, hannounced, hbudget⟩ := h
  rcases handler_of_step hrunning hstep with hless | ⟨hsame, -⟩
  · exact Or.inl (Or.inr (Or.inl hless))
  -- the request cycle's step, if it is one, and what it does to the budget
  have hcycle : ∀ b, RequestCycle.step cfg.uninitialized s.cycle b = some t.cycle →
      (t.cycle.server.dispatcher = .exited ∨ Ready s.handler t) ∨
        ∃ m', Announced cfg.uninitialized t.cycle m' ∧
          m' + (if b.isDispatcher then 1 else 0) ≤ m := by
    intro b hb
    rcases RequestCycle.announced_step hannounced hb with (hexited | hclear) | hgoes
    · exact Or.inl (Or.inl hexited)
    · exact Or.inl (Or.inr (Or.inr ⟨hsame, fun _ => hclear⟩))
    · exact Or.inr hgoes
  cases ha : a.isDispatcher with
  | false =>
      have hthreads := threads_of_step ha hstep
      rcases requestCycle_of_step hstep with heq | ⟨b, hb⟩
      · refine Or.inr ⟨n, ⟨hsame, m, heq ▸ hannounced, ?_⟩, by simp⟩
        rwa [hthreads]
      · refine (hcycle b hb).imp_right ?_
        rintro ⟨m', hannounced', hle⟩
        refine ⟨n, ⟨hsame, m', hannounced', ?_⟩, by simp⟩
        rw [hthreads]
        omega
  | true =>
      simp only [if_true]
      rcases dispatcher_of_step ha hstep with ⟨heq, hidle, hstarted⟩ | ⟨times, hb⟩
      · rw [hidle, Bool.toNat_true] at hbudget
        refine Or.inr ⟨2 * m, ⟨hsame, m, heq ▸ hannounced, ?_⟩, hbudget⟩
        rw [hstarted, Bool.toNat_false, Nat.add_zero]
      · refine (hcycle _ hb).imp_right ?_
        rintro ⟨m', hannounced', hle⟩
        have hone := Bool.toNat_le t.threads.isNone
        have hdispatcher : (RequestCycle.Action.server (.dispatcher times)).isDispatcher = true :=
          rfl
        rw [hdispatcher, if_pos rfl] at hle
        exact ⟨_, ⟨hsame, m', hannounced', le_rfl⟩, by omega⟩

theorem ready_step {a : Action} (hrunning : s.handler ≠ .idle) (h : Ready pc s)
    (hstep : step cfg s a = some t) : Ready pc t := by
  rcases handler_of_step hrunning hstep with hless | ⟨hsame, hclear⟩
  · left
    rcases h with hlower | ⟨rfl, -⟩
    · exact hless.trans hlower
    · exact hless
  · rcases h with hlower | ⟨rfl, hflag⟩
    · exact Or.inl (hsame ▸ hlower)
    · exact Or.inr ⟨hsame, fun hwaits => hclear (hflag hwaits)⟩

/-- A call that is ready stays so until it returns. -/
theorem ready_exec {acts : List Action} (h : Ready pc s)
    (hrun : (machine cfg).exec s acts = some t) : CallReturns cfg s acts ∨ Ready pc t := by
  induction acts generalizing s with
  | nil =>
      rw [← Option.some.inj hrun]
      exact Or.inr h
  | cons a acts ih =>
      obtain ⟨r, hfirst, hrest⟩ := Machine.exec_cons_eq_some.mp hrun
      by_cases hidle : s.handler = .idle
      · exact Or.inl (.of_idle hidle _)
      · have ha : (machine cfg).exec s [a] = some r := Machine.exec_singleton.mpr hfirst
        refine (ih (ready_step hidle h hfirst) hrest).imp_left ?_
        exact fun hreturns => hreturns.append_left ha

theorem exited_of_exec {acts : List Action} (h : s.cycle.server.dispatcher = .exited)
    (hrun : (machine cfg).exec s acts = some t) : t.cycle.server.dispatcher = .exited := by
  refine Machine.exec_preserves (I := fun s => s.cycle.server.dispatcher = .exited) ?_ h hrun
  intro s a t hs hstep
  rcases requestCycle_of_step hstep with heq | ⟨b, hb⟩
  · rwa [heq]
  · exact RequestCycle.exited_of_step hs hb

/-- Two laps of the dispatcher make the call ready, if they do not end it. -/
theorem ready_of_laps {acts : List Action} (h : (machine cfg).Reachable s)
    (hrunning : s.handler ≠ .idle) (hrun : (machine cfg).exec s acts = some t)
    (hruns : t.cycle.server.dispatcher ≠ .exited)
    (hlaps : 4 * lap ≤ acts.countP Action.isDispatcher) :
    CallReturns cfg s acts ∨ Ready s.handler t := by
  by_cases hready : Ready s.handler s
  · exact ready_exec hready hrun
  have hflag : s.flag = true := by
    by_contra hclear
    exact hready (Or.inr ⟨rfl, fun _ => Bool.eq_false_of_not_eq_true hclear⟩)
  have hlap := RequestCycle.lapLeft_lt_lap s.cycle
  have hone := Bool.toNat_le s.threads.isNone
  have hwaits : Waits cfg s.handler s
      (2 * (lapLeft s.cycle + lap) + s.threads.isNone.toNat) :=
    ⟨rfl, _, ⟨requestCycle_reachable h, hflag, Or.inr le_rfl⟩, le_rfl⟩
  rcases Machine.exec_reaches (C := fun _ => True) (I := Waits cfg s.handler)
    (p := Action.isDispatcher) (fun _ _ _ _ _ hn hstep => waits_step hrunning hn hstep) hwaits
    (fun _ _ _ _ => trivial) hrun with
    ⟨before, after, u, rfl, hbefore, hafter, hexited | hu⟩ | ⟨m, -, hcount⟩
  · exact absurd (exited_of_exec hexited hafter) hruns
  · exact (ready_exec hu hafter).imp_left fun hreturns => hreturns.append_left hbefore
  · omega

/-- One more step of the call, when the dispatcher has made two laps. -/
theorem callLeft_of_laps {acts : List Action} {throws : Bool} (h : (machine cfg).Reachable s)
    (hrunning : s.handler ≠ .idle)
    (hrun : (machine cfg).exec s (acts ++ [.handler throws]) = some t)
    (hruns : t.cycle.server.dispatcher ≠ .exited)
    (hlaps : 4 * lap ≤ acts.countP Action.isDispatcher) :
    CallReturns cfg s (acts ++ [.handler throws]) ∨
      t.handler.callLeft < s.handler.callLeft := by
  obtain ⟨u, hacts, hlast⟩ := Machine.exec_append_eq_some.mp hrun
  have hgoes : u.cycle.server.dispatcher ≠ .exited := fun hexited =>
    hruns (exited_of_exec hexited hlast)
  refine (ready_of_laps h hrunning hacts hgoes hlaps).imp CallReturns.append_right ?_
  rintro (hlower | ⟨hsame, hclear⟩)
  · rcases handler_of_handler (Machine.exec_singleton.mp hlast) with hless | ⟨-, -, heq⟩
    · exact hless.trans hlower
    · rwa [heq]
  · rcases handler_of_handler (Machine.exec_singleton.mp hlast) with hless | ⟨hwaits, hflag, -⟩
    · rwa [hsame] at hless
    · rw [hsame] at hwaits
      cases hflag.symm.trans (hclear hwaits)

/-! ## The whole call -/

/-- A step of the handler, and what everybody does before it. -/
structure Segment where
  others : List Action
  throws : Bool

def Segment.acts (segment : Segment) : List Action := segment.others ++ [.handler segment.throws]

theorem handlerStep_isSome (h : (machine cfg).Reachable s) (hrunning : s.handler ≠ .idle)
    (throws : Bool) : (step cfg s (.handler throws)).isSome = true := by
  have hslot := (serverInv_of_reachable h).bank.slot
  have hnext : (ClientBankHandoff.handlerStep cfg.uninitialized s.cycle.server.workspace throws
      s.cycle.server.handler).isSome = true :=
    ClientBankHandoff.handlerStep_isSome hslot hrunning throws
  simp only [step, handlerStep, cycleStep, TransposeServer.step, TransposeServer.serverStep,
    RequestCycle.step, ClientBankHandoff.step, Option.isSome_map]
  exact hnext

/-- What a message begins is bounded by the number of buffers that it asks for. -/
theorem callLeft_of_message {fd : Nat} (hstep : step cfg s (.message fd) = some t) :
    ∃ message rest, s.toServer fd = message :: rest ∧
      t.handler.callLeft ≤ 2 * message.param3.toNat + 85 := by
  cases move_of_step hstep with
  | @message _ message rest cycle _ hnext hmessage =>
      refine ⟨message, rest, hnext, ?_⟩
      change cycle.server.handler.callLeft ≤ _
      obtain ⟨hidle, rfl | ⟨-, -, rfl⟩ | ⟨-, -, rfl⟩⟩ := begins_of_message hmessage
      · rw [hidle]
        exact Nat.zero_le _
      · simp only [HandlerPc.callLeft, ClientBankHandoff.length_buildSteps, maxClients]
        omega
      · simp only [HandlerPc.callLeft, maxClients]
        omega

/-- **Every call of the handler returns.** A call that runs can always make its next step. If the
dispatcher does not exit and makes the steps of two laps before each step of the call, the call of
`AddClient` or `RemoveClient` returns with as many steps as `callLeft` says at the latest, whatever
the clients and the threads do in the meantime; when the call begins that is twice the number of
buffers and a constant. -/
theorem calls_return (h : (machine cfg).Reachable s) :
    (s.handler ≠ .idle → ∀ throws, (step cfg s (.handler throws)).isSome = true) ∧
      (∀ fd t, step cfg s (.message fd) = some t →
        ∃ message rest, s.toServer fd = message :: rest ∧
          t.handler.callLeft ≤ 2 * message.param3.toNat + 85) ∧
      ∀ (segments : List Segment) (t : State), s.handler.callLeft ≤ segments.length →
        (∀ segment ∈ segments, 4 * lap ≤ segment.others.countP Action.isDispatcher) →
        (machine cfg).exec s (segments.flatMap Segment.acts) = some t →
        t.cycle.server.dispatcher ≠ .exited →
        CallReturns cfg s (segments.flatMap Segment.acts) := by
  refine ⟨handlerStep_isSome h, fun _ _ hstep => callLeft_of_message hstep, ?_⟩
  intro segments
  induction segments generalizing s with
  | nil =>
      intro t hlength _ _ _
      have hidle := ClientBankHandoff.HandlerPc.callLeft_eq_zero.mp (Nat.le_zero.mp hlength)
      exact .of_idle hidle _
  | cons segment segments ih =>
      intro t hlength hlaps hrun hruns
      by_cases hidle : s.handler = .idle
      · exact .of_idle hidle _
      rw [List.flatMap_cons] at hrun ⊢
      obtain ⟨u, hfirst, hrest⟩ := Machine.exec_append_eq_some.mp hrun
      have hgoes : u.cycle.server.dispatcher ≠ .exited := fun hexited =>
        hruns (exited_of_exec hexited hrest)
      rcases callLeft_of_laps h hidle hfirst hgoes (hlaps _ List.mem_cons_self) with
        hreturns | hless
      · exact hreturns.append_right
      · have hshorter : u.handler.callLeft ≤ segments.length := by
          rw [List.length_cons] at hlength
          omega
        have hlater : ∀ segment ∈ segments,
            4 * lap ≤ segment.others.countP Action.isDispatcher :=
          fun segment hmem => hlaps segment (List.mem_cons_of_mem _ hmem)
        exact (ih (h.exec hfirst) t hshorter hlater hrest hruns).append_left
          hfirst

/-- The call of `RemoveClient` for client 7 has announced its update and waits. -/
def smallRemoval : List Action :=
  smallRequest ++ (smallStart ++ smallCopy) ++ List.replicate 5 (.main 7) ++
    .message 7 :: List.replicate 5 (.handler false)

theorem calls_return_small :
    ∃ s acts, (machine .small).Reachable s ∧ s.handler.waits = true ∧ s.flag = true ∧
      CallReturns .small s acts := by
  let start : State := initial .small fun _ => 0
  let segment : Segment := { others := List.replicate 3092 (.dispatcher none), throws := false }
  let segments : List Segment := [segment, segment]
  let run (s : State) : Option State := (machine .small).exec s (segments.flatMap Segment.acts)
  have hruns : ((machine .small).exec start smallRemoval).bind (fun s => (run s).map fun t =>
      (s.handler.waits, s.flag, s.handler.callLeft,
        decide (t.cycle.server.dispatcher = .exited))) = some (true, true, 2, false) := by
    decide +kernel
  have hlaps : ∀ segment ∈ segments,
      4 * lap ≤ segment.others.countP Action.isDispatcher := by decide +kernel
  obtain ⟨s, hremoval, hrest⟩ := Option.bind_eq_some_iff.mp hruns
  obtain ⟨t, hrun, hs⟩ := Option.map_eq_some_iff.mp hrest
  simp only [Prod.mk.injEq] at hs
  obtain ⟨hwaits, hflag, hleft, hexited⟩ := hs
  have hreach : (machine .small).Reachable s := ⟨start, smallRemoval, ⟨_, rfl⟩, hremoval⟩
  refine ⟨s, segments.flatMap Segment.acts, hreach, hwaits, hflag, ?_⟩
  exact (calls_return hreach).2.2 segments t hleft.le hlaps hrun (of_decide_eq_false hexited)

end MatrixTransposer.Deployment
