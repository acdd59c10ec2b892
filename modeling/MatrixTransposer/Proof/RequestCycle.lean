import MatrixTransposer.Proof.RequestProgress

/-!
# Requests are answered, one at a time and in order

What the stages, the rounds and the laps come to for a client: its requests are those of its two
loops, each is transposed once and answered once, and `Wait` does not return before.
-/

namespace MatrixTransposer.RequestCycle

open Lib

variable {uninitialized : Int32} {s t : State} {pid : UInt32} {c c' : Client} {work work' : WorkPc}
  {stage after : Stage} {events : List Event}

/-! ## The requests of the two loops -/

def repetitions (k : UInt32) (count : Nat) : List UInt32 :=
  (List.replicate count (upTo 0 k)).flatten

/-- What `main` has called `Enqueue` with. -/
def Client.requested (c : Client) : List UInt32 :=
  match c.main with
  | .loop repetition bufferIndex => repetitions c.k repetition.toNat ++ upTo 0 bufferIndex
  | .enqueue repetition bufferIndex | .callWait repetition bufferIndex
  | .wait repetition bufferIndex =>
      repetitions c.k repetition.toNat ++ upTo 0 bufferIndex ++ [bufferIndex]
  | .done => repetitions c.k c.requestRepetitions.toNat

/-- The counters of the loops are within their bounds. -/
def Client.InLoops (c : Client) : Prop :=
  match c.main with
  | .loop repetition bufferIndex =>
      repetition < c.requestRepetitions ∧ bufferIndex ≤ c.k ∨
        repetition = c.requestRepetitions ∧ bufferIndex = 0
  | .enqueue repetition bufferIndex | .callWait repetition bufferIndex
  | .wait repetition bufferIndex => repetition < c.requestRepetitions ∧ bufferIndex < c.k
  | .done => True

theorem toNat_succ {i bound : UInt32} (h : i < bound) : (i + 1).toNat = i.toNat + 1 := by
  have hlt : i.toNat < bound.toNat := UInt32.lt_iff_toNat_lt.mp h
  have hbound := bound.toNat_lt
  rw [UInt32.toNat_add, UInt32.toNat_one, Nat.mod_eq_of_lt (by omega)]

theorem succ_le {i bound : UInt32} (h : i < bound) : i + 1 ≤ bound := by
  rw [UInt32.le_iff_toNat_le, toNat_succ h]
  exact UInt32.lt_iff_toNat_lt.mp h

theorem upTo_succ {i bound : UInt32} (h : i < bound) : upTo 0 (i + 1) = upTo 0 i ++ [i] := by
  simp only [upTo, toNat_succ h, UInt32.toNat_zero, Nat.sub_zero]
  rw [List.range'_1_concat, List.map_append, List.map_singleton, Nat.zero_add, UInt32.ofNat_toNat]

theorem repetitions_succ (k : UInt32) (count : Nat) :
    repetitions k (count + 1) = repetitions k count ++ upTo 0 k := by
  rw [repetitions, List.replicate_succ', List.flatten_append, List.flatten_singleton, repetitions]

theorem MainMove.requested (hmove : MainMove c stage c' after events) (h : c.InLoops) :
    c'.InLoops ∧ c'.requested = c.requested ++ events.filterMap Event.called? := by
  unfold Client.InLoops at h
  cases hmove with
  | call hpc hrep hindex =>
      refine ⟨⟨hrep, hindex⟩, ?_⟩
      simp [Client.requested, hpc, Event.called?]
  | @next repetition bufferIndex hpc hrep hindex =>
      simp only [hpc] at h
      have heq : bufferIndex = c.k := by
        rcases h with ⟨-, hle⟩ | ⟨rfl, -⟩
        · exact UInt32.le_antisymm hle (UInt32.not_lt.mp hindex)
        · exact absurd hrep (UInt32.lt_irrefl _)
      refine ⟨?_, ?_⟩
      · rcases UInt32.lt_or_eq_of_le (succ_le hrep) with hlt | hlast
        · exact Or.inl ⟨hlt, UInt32.zero_le⟩
        · exact Or.inr ⟨hlast, rfl⟩
      · simp only [Client.requested, hpc, toNat_succ hrep, repetitions_succ, heq]
        simp [upTo]
  | @finish repetition bufferIndex hpc hrep =>
      simp only [hpc] at h
      obtain ⟨hlast, hzero⟩ : repetition = c.requestRepetitions ∧ bufferIndex = 0 := by
        rcases h with ⟨hlt, -⟩ | hlast
        · exact absurd hlt hrep
        · exact hlast
      refine ⟨trivial, ?_⟩
      simp [Client.requested, hpc, hlast, hzero, upTo]
  | enqueue hpc | wait hpc =>
      simp only [hpc] at h
      simp only [Client.InLoops, Client.requested, hpc, List.filterMap_nil, List.append_nil]
      exact ⟨h, trivial⟩
  | enqueued hpc | callWait hpc =>
      simp only [hpc] at h
      refine ⟨h, ?_⟩
      simp [Client.requested, hpc, Event.called?]
  | waited hpc =>
      simp only [hpc] at h
      refine ⟨Or.inl ⟨h.1, succ_le h.2⟩, ?_⟩
      simp [Client.requested, hpc, upTo_succ h.2, Event.called?]

theorem Client.requested_congr (hmain : c'.main = c.main) (hk : c'.k = c.k)
    (hrepetitions : c'.requestRepetitions = c.requestRepetitions) :
    (c.InLoops → c'.InLoops) ∧ c'.requested = c.requested := by
  unfold InLoops requested
  rw [hmain, hk, hrepetitions]
  exact ⟨id, rfl⟩

theorem ServeMove.called (h : ServeMove c stage work c' work' after events) :
    events.filterMap Event.called? = [] := by
  cases h <;> rfl

theorem LocalMove.requested {own : Bool} (hmove : LocalMove c stage work own c' after work' events)
    (h : c.InLoops) :
    c'.InLoops ∧ c'.requested = c.requested ++ events.filterMap Event.called? := by
  cases hmove with
  | main hmove => exact hmove.requested h
  | serve hmove =>
      obtain ⟨hmain, hk, hrepetitions⟩ := hmove.frame
      obtain ⟨hloops, hrequested⟩ := Client.requested_congr hmain hk hrepetitions
      rw [hmove.called, List.append_nil]
      exact ⟨hloops h, hrequested⟩
  | interrupt =>
      obtain ⟨hloops, hrequested⟩ := Client.requested_congr (c := c) rfl rfl rfl
      rw [List.filterMap_nil, List.append_nil]
      exact ⟨hloops h, hrequested⟩
  | leave | other =>
      rw [List.filterMap_nil, List.append_nil]
      exact ⟨h, rfl⟩

theorem called_of_exec {s₀ : State} {acts : List Action} (hinit : (machine uninitialized).init s₀)
    (hrun : (machine uninitialized).exec s₀ acts = some s) (pid : UInt32) :
    ((machine uninitialized).trace (observe pid) s₀ acts).filterMap Event.called? =
      (s.clients pid).requested := by
  let Counted (s : State) (history : List Event) : Prop :=
    (machine uninitialized).Reachable s ∧ (s.clients pid).InLoops ∧
      history.filterMap Event.called? = (s.clients pid).requested
  have hstart : Counted s₀ [] := by
    refine ⟨Machine.Reachable.of_init hinit, ?_⟩
    obtain ⟨serverPid, k, requestRepetitions, rfl⟩ := hinit
    refine ⟨?_, rfl⟩
    rcases UInt32.lt_or_eq_of_le (UInt32.zero_le (a := requestRepetitions pid)) with hlt | heq
    · exact Or.inl ⟨hlt, UInt32.zero_le⟩
    · exact Or.inr ⟨heq, rfl⟩
  have hkeep : ∀ s history a t, Counted s history → step uninitialized s a = some t →
      Counted t (history ++ observe pid s a) := by
    rintro s history a t ⟨hreach, hloops, hcalled⟩ hstep
    obtain ⟨stage, hat⟩ := at_of_reachable hreach pid
    obtain ⟨after, hmove, -⟩ := localStep_of_step (serverInv_of_reachable hreach) hat hstep
    obtain ⟨hloops', hrequested⟩ := hmove.requested hloops
    refine ⟨hreach.step hstep, hloops', ?_⟩
    rw [List.filterMap_append, hcalled, hrequested]
  exact (Machine.exec_trace_invariant hkeep hstart hrun).2.2

/-! ## The history -/

section History

variable {history : List Event}

theorem filterMap_called (bufferIndex : UInt32) :
    (round bufferIndex).filterMap Event.called? = [bufferIndex] := rfl

theorem filterMap_enqueued (bufferIndex : UInt32) :
    (round bufferIndex).filterMap Event.enqueued? = [bufferIndex] := rfl

theorem filterMap_transposed (bufferIndex : UInt32) :
    (round bufferIndex).filterMap Event.transposed? = [bufferIndex] := rfl

theorem filterMap_waited (bufferIndex : UInt32) :
    (round bufferIndex).filterMap Event.waited? = [bufferIndex] := rfl

/-- Each event of a round waits for the one before it. -/
theorem history_in_order (h : Rounds round history stage.owed) :
    history.filterMap Event.enqueued? <+: history.filterMap Event.called? ∧
      history.filterMap Event.transposed? <+: history.filterMap Event.enqueued? ∧
      history.filterMap Event.waited? <+: history.filterMap Event.transposed? := by
  refine ⟨h.filterMap_prefix filterMap_called filterMap_enqueued ?_,
    h.filterMap_prefix filterMap_enqueued filterMap_transposed ?_,
    h.filterMap_prefix filterMap_transposed filterMap_waited ?_⟩
  all_goals cases stage <;> exact Nat.le_of_ble_eq_true rfl

theorem called_le_waited_succ (h : Rounds round history stage.owed) :
    (history.filterMap Event.called?).length ≤ (history.filterMap Event.waited?).length + 1 := by
  have hlength := h.length_filterMap filterMap_called filterMap_waited
  have howed : (stage.owed.filterMap Event.waited?).length ≤ 1 := by
    cases stage <;> exact Nat.le_of_ble_eq_true rfl
  omega

theorem enqueued_false_not_mem (h : Rounds round history stage.owed) (bufferIndex : UInt32) :
    .enqueued bufferIndex false ∉ history := by
  intro hmem
  obtain ⟨items, hitems⟩ := h
  have hround : Event.enqueued bufferIndex false ∈ items.flatMap round := by
    rw [← hitems]
    exact List.mem_append_left _ hmem
  obtain ⟨item, -, hitem⟩ := List.mem_flatMap.mp hround
  simp [round] at hitem

theorem history_of_raised {bufferIndex : UInt32}
    (h : Rounds round history (Stage.raised bufferIndex).owed) :
    history.filterMap Event.transposed? = history.filterMap Event.waited? ++ [bufferIndex] ∧
      history.filterMap Event.called? = history.filterMap Event.transposed? := by
  obtain ⟨items, hitems⟩ := h.exists_filterMap
  have hcalled := hitems _ filterMap_called
  have htransposed := hitems _ filterMap_transposed
  have hwaited := hitems _ filterMap_waited
  simp only [Stage.owed, round, List.drop_succ_cons, List.drop_zero, List.filterMap_cons,
    Event.called?, Event.transposed?, Event.waited?, List.filterMap_nil,
    List.append_nil] at hcalled htransposed hwaited
  exact ⟨htransposed.trans hwaited.symm, hcalled.trans htransposed.symm⟩

theorem history_of_resting (h : Rounds round history Stage.resting.owed) :
    history.filterMap Event.waited? = history.filterMap Event.called? := by
  obtain ⟨items, hitems⟩ := h.exists_filterMap
  have hcalled := hitems _ filterMap_called
  have hwaited := hitems _ filterMap_waited
  simp only [Stage.owed, List.filterMap_nil, List.append_nil] at hcalled hwaited
  exact hwaited.trans hcalled.symm

end History

/-! ## The answer -/

/-- `Wait`, called for this buffer index in this repetition, returns in the run. -/
def WaitReturns (uninitialized : Int32) (pid repetition bufferIndex : UInt32) (s : State)
    (acts : List Action) : Prop :=
  ∃ before t, before <+: acts ∧ (machine uninitialized).exec s before = some t ∧
    (t.clients pid).main = .loop repetition (bufferIndex + 1)

theorem WaitReturns.append_left {repetition bufferIndex : UInt32} {before after : List Action}
    (hbefore : (machine uninitialized).exec s before = some t)
    (h : WaitReturns uninitialized pid repetition bufferIndex t after) :
    WaitReturns uninitialized pid repetition bufferIndex s (before ++ after) := by
  obtain ⟨earlier, u, ⟨later, rfl⟩, hearlier, hloop⟩ := h
  refine ⟨before ++ earlier, u, ?_, Machine.exec_append_eq_some.mpr ⟨t, hbefore, hearlier⟩, hloop⟩
  exact ⟨later, by rw [List.append_assoc]⟩

section Answer

variable {repetition bufferIndex : UInt32} {acts : List Action}

theorem woken_of_laps {slot : Fin maxClients} (h : (machine uninitialized).Reachable s)
    (hwait : (s.clients pid).Waiting repetition bufferIndex)
    (hrun : (machine uninitialized).exec s acts = some t)
    (hsubscribed : (machine uninitialized).Along (Subscribed pid slot) s acts)
    (hlaps : 2 * lap ≤ acts.countP Action.isDispatcher) :
    ∃ before after u, acts = before ++ after ∧ (machine uninitialized).exec s before = some u ∧
      (machine uninitialized).exec u after = some t ∧
      ((u.clients pid).main = .loop repetition (bufferIndex + 1) ∨
        (u.clients pid).Waiting repetition bufferIndex ∧ Woken pid u) := by
  by_cases hwoken : Woken pid s
  · exact ⟨[], acts, s, rfl, rfl, hrun, Or.inr ⟨hwait, hwoken⟩⟩
  have hlap := lapLeft_lt_lap s
  have hunderway :
      Underway uninitialized pid slot repetition bufferIndex s (lapLeft s + lap) :=
    ⟨h, hwait, hwoken, Or.inr le_rfl⟩
  rcases Machine.exec_reaches (I := Underway uninitialized pid slot repetition bufferIndex)
    (p := Action.isDispatcher) (fun _ _ _ _ hbit hn hstep => underway_step hbit hn hstep)
    hunderway hsubscribed hrun with hreached | ⟨m, -, hcount⟩
  · exact hreached
  · omega

/-- Once it is woken, the client can go on, and its second step returns. -/
theorem waitReturns_of_woken (h : (machine uninitialized).Reachable s)
    (hwait : (s.clients pid).Waiting repetition bufferIndex) (hwoken : Woken pid s)
    (hrun : (machine uninitialized).exec s acts = some t) :
    WaitReturns uninitialized pid repetition bufferIndex s acts ∨
      (t.clients pid).step.isSome = true ∧ acts.countP (Action.isClient pid) < 2 := by
  have hbounds : ∀ c : Client, 1 ≤ c.returnLeft ∧ c.returnLeft ≤ 2 := by
    intro c
    unfold Client.returnLeft
    split <;> omega
  have hreturning : Returning uninitialized pid repetition bufferIndex s 2 :=
    ⟨h, hwait, hwoken, (hbounds _).2⟩
  rcases Machine.exec_reaches (I := Returning uninitialized pid repetition bufferIndex)
    (p := Action.isClient pid) (fun _ _ _ _ _ hn hstep => returning_step hn hstep) hreturning
    (fun _ _ _ _ => trivial) hrun with
    ⟨before, after, u, rfl, hbefore, -, hloop⟩ | ⟨m, ⟨hreach, hwait', ⟨hone, hwork⟩, hm⟩, hcount⟩
  · exact Or.inl ⟨before, u, List.prefix_append _ _, hbefore, hloop⟩
  · right
    obtain ⟨stage, hat⟩ := at_of_reachable hreach pid
    have hdone : (t.clients pid).main ≠ .done := by
      rcases hwait' with hpc | hpc <;> simp [hpc]
    have hpos := (hbounds (t.clients pid)).1
    exact ⟨hat.step_isSome hdone (hat.not_asleep hone hwork), by omega⟩

theorem waitReturns_of_laps {slot : Fin maxClients} {u : State} {before after : List Action}
    (h : (machine uninitialized).Reachable s)
    (hwait : (s.clients pid).Waiting repetition bufferIndex)
    (hbefore : (machine uninitialized).exec s before = some u)
    (hsubscribed : (machine uninitialized).Along (Subscribed pid slot) s before)
    (hlaps : 2 * lap ≤ before.countP Action.isDispatcher)
    (hafter : (machine uninitialized).exec u after = some t) :
    WaitReturns uninitialized pid repetition bufferIndex s (before ++ after) ∨
      (t.clients pid).step.isSome = true ∧ after.countP (Action.isClient pid) < 2 := by
  obtain ⟨first, second, v, rfl, hfirst, hsecond, hv⟩ :=
    woken_of_laps h hwait hbefore hsubscribed hlaps
  rw [List.append_assoc]
  rcases hv with hloop | ⟨hwait', hwoken⟩
  · exact Or.inl ⟨first, v, List.prefix_append _ _, hfirst, hloop⟩
  · have hrest := Machine.exec_append_eq_some.mpr ⟨u, hsecond, hafter⟩
    rcases waitReturns_of_woken (h.exec hfirst) hwait' hwoken hrest with hreturns | ⟨hnext, hcount⟩
    · exact Or.inl (hreturns.append_left hfirst)
    · rw [List.countP_append] at hcount
      exact Or.inr ⟨hnext, by omega⟩

end Answer

/-- The client's own steps transpose nothing. -/
theorem Client.transposed_shows (c : Client) : c.shows.filterMap Event.transposed? = [] := by
  rw [List.filterMap_eq_nil_iff]
  intro event hevent
  cases hpc : c.main with
  | loop repetition bufferIndex =>
      simp only [shows, hpc] at hevent
      split at hevent
      · cases List.mem_singleton.mp hevent
        rfl
      · cases hevent
  | enqueue repetition bufferIndex =>
      simp only [shows, hpc, List.mem_flatMap] at hevent
      obtain ⟨op, -, hop⟩ := hevent
      cases op with
      | enqueue item accepted =>
          cases List.mem_singleton.mp hop
          cases accepted <;> rfl
      | dequeue => cases hop
  | wait repetition bufferIndex =>
      simp only [shows, hpc, List.mem_map] at hevent
      obtain ⟨-, -, rfl⟩ := hevent
      rfl
  | callWait | done =>
      simp only [shows, hpc] at hevent
      cases hevent

theorem raised_of_waited {a : Action} {bufferIndex : UInt32}
    (hat : (s.clients pid).At stage (s.workOn pid))
    (hshows : .waited bufferIndex ∈ observe pid s a) : stage = .raised bufferIndex := by
  have hmem : .waited bufferIndex ∈ (s.clients pid).shows := by
    cases a with
    | client p =>
        rw [observe] at hshows
        split at hshows
        · exact hshows
        · cases hshows
    | interrupt => cases hshows
    | server a =>
        cases a with
        | dispatcher times =>
            simp only [observe] at hshows
            split at hshows
            · split at hshows
              · cases hwork : s.work <;> simp [Client.servingShows, hwork] at hshows
              · cases hshows
            · cases hshows
        | add | remove | handler | stop => cases hshows
  have hmain := hat.main
  cases hpc : (s.clients pid).main with
  | wait repetition index =>
      rw [hpc] at hmain
      obtain ⟨hawaited, -, hthread⟩ := hmain
      simp only [Client.shows, hpc, List.mem_map, Event.waited.injEq] at hmem
      obtain ⟨signal, hsignal, rfl⟩ := hmem
      have hone : (s.clients pid).futex.word ≠ 0 := by
        intro hzero
        rcases hthread with hthread | hthread | hthread <;>
          simp [FutexSignaller.signals, hthread, hzero] at hsignal
      obtain ⟨b, rfl⟩ := hat.raised_of_word hone
      exact congrArg Stage.raised hawaited
  | loop repetition index =>
      simp only [Client.shows, hpc] at hmem
      split at hmem <;> simp at hmem
  | enqueue repetition index =>
      simp only [Client.shows, hpc, List.mem_flatMap] at hmem
      obtain ⟨op, -, hop⟩ := hmem
      cases op <;> simp at hop
  | callWait | done =>
      simp only [Client.shows, hpc] at hmem
      cases hmem

/-- The client is between two requests, or has finished. -/
def Client.Resting (c : Client) : Prop :=
  (∃ repetition bufferIndex, c.main = .loop repetition bufferIndex) ∨ c.main = .done

/-- **Requests are answered, one at a time and in order.** In any run of the server and its clients,
and for each client: its requests are those of its two loops; what is transposed is, in order, a
prefix of what is enqueued, and what is answered a prefix of what is transposed; at most one request
is open, and `Enqueue` never returns false; `Wait` returns when the transposition of its own request
is the last that has finished, and a signal that is up is for that request; between two requests all
are answered. And they are answered: as long as the server has not been stopped the dispatcher can
go on, two of its laps wake a subscribed client that waits, and that client can then go on and
returns with its second step at the latest. -/
theorem requests_answered_in_order {s₀ : State} {acts : List Action}
    (hinit : (machine uninitialized).init s₀)
    (hrun : (machine uninitialized).exec s₀ acts = some s) (pid : UInt32) :
    let client := s.clients pid
    let history := (machine uninitialized).trace (observe pid) s₀ acts
    let called := history.filterMap Event.called?
    let enqueued := history.filterMap Event.enqueued?
    let transposed := history.filterMap Event.transposed?
    let waited := history.filterMap Event.waited?
    (called = client.requested ∧ enqueued <+: called ∧ transposed <+: enqueued ∧
        waited <+: transposed) ∧
      called.length ≤ waited.length + 1 ∧
      (∀ bufferIndex, .enqueued bufferIndex false ∉ history) ∧
      (∀ a bufferIndex, .waited bufferIndex ∈ observe pid s a →
        transposed = waited ++ [bufferIndex] ∧ called = transposed) ∧
      (client.futex.word ≠ 0 →
        ∃ bufferIndex, transposed = waited ++ [bufferIndex] ∧ called = transposed) ∧
      (client.Resting → waited = called ∧ client.futex.word = 0) ∧
      (s.server.dispatcher ≠ .exited → ∃ times, (dispatcherStep s times).isSome = true) ∧
      ∀ slot repetition bufferIndex before u, client.Waiting repetition bufferIndex →
        (machine uninitialized).exec s before = some u →
        (machine uninitialized).Along (Subscribed pid slot) s before →
        2 * lap ≤ before.countP Action.isDispatcher →
        ∀ after t, (machine uninitialized).exec u after = some t →
          WaitReturns uninitialized pid repetition bufferIndex s (before ++ after) ∨
            (t.clients pid).step.isSome = true ∧ after.countP (Action.isClient pid) < 2 := by
  obtain ⟨stage, hat, hrounds⟩ := clientInv_of_exec hinit hrun pid
  have hreach : (machine uninitialized).Reachable s := ⟨s₀, acts, hinit, hrun⟩
  refine ⟨⟨called_of_exec hinit hrun pid, history_in_order hrounds⟩,
    called_le_waited_succ hrounds, enqueued_false_not_mem hrounds, ?_, ?_, ?_,
    dispatcherStep_isSome hreach, ?_⟩
  · intro a bufferIndex hshows
    obtain rfl := raised_of_waited hat hshows
    exact history_of_raised hrounds
  · intro hword
    obtain ⟨bufferIndex, rfl⟩ := hat.raised_of_word hword
    exact ⟨bufferIndex, history_of_raised hrounds⟩
  · intro hresting
    have hmain := hat.main
    obtain rfl : stage = .resting := by
      rcases hresting with ⟨repetition, bufferIndex, hpc⟩ | hpc
      · rw [hpc] at hmain
        exact hmain.1
      · rw [hpc] at hmain
        exact hmain.1
    exact ⟨history_of_resting hrounds, hat.word⟩
  · intro slot repetition bufferIndex before u hwait hbefore hsubscribed hlaps after t hafter
    exact waitReturns_of_laps hreach hwait hbefore hsubscribed hlaps hafter

/-- Client 7 subscribes, enqueues its only request and falls asleep; then the dispatcher goes round
twice, and the client makes two steps. -/
theorem requests_answered_in_order_one_request :
    ∃ s acts, (machine 0).Reachable s ∧ WaitReturns 0 7 0 0 s acts := by
  let req : SubscribeRequest :=
    { clientId := 7, m := 6, n := 6, k := 1, context := { socket := 5 } }
  let start : State := initial 1 (fun _ => 1) (fun _ => 1)
  let subscribe : List Action :=
    .server (.add req) :: List.replicate 21 (.server (.handler false)) ++
      List.replicate 9 (.client 7)
  let before : List Action :=
    List.replicate 15 (.server (.dispatcher none)) ++ [.server (.dispatcher (some (0, 0)))] ++
      List.replicate 1530 (.server (.dispatcher none))
  let after : List Action := [.client 7, .client 7]
  let slot : Fin maxClients := ⟨0, by decide⟩
  have hwaits : ((machine 0).exec start subscribe).map (fun s =>
      ((s.clients 7).main, getBit s.server.workspace.validClientsBitSet slot,
        (s.server.workspace.clientBank slot).id, s.server.handler.isIdle)) =
      some (.wait 0 0, true, 7, true) := by decide +kernel
  have hruns : ((machine 0).exec start (subscribe ++ (before ++ after))).isSome = true := by
    decide +kernel
  obtain ⟨s, hsubscribe, hs⟩ := Option.map_eq_some_iff.mp hwaits
  obtain ⟨t, hrun⟩ := Option.isSome_iff_exists.mp hruns
  obtain ⟨s', hs', hrest⟩ := Lib.Machine.exec_append_eq_some.mp hrun
  obtain rfl : s = s' := Option.some.inj (hsubscribe.symm.trans hs')
  obtain ⟨u, hbefore, hafter⟩ := Lib.Machine.exec_append_eq_some.mp hrest
  simp only [Prod.mk.injEq] at hs
  obtain ⟨hmain, hbit, hid, hidle⟩ := hs
  have hannounced : s.server.handler ≠ .setFlag slot true := by
    intro hpc
    rw [hpc] at hidle
    cases hidle
  have hinit : (machine 0).init start := ⟨1, _, _, rfl⟩
  have hsubscribed : (machine 0).Along (Subscribed 7 slot) s before := by
    refine Machine.Along.of_step (C := Subscribed 7 slot) ⟨hbit, hid, hannounced⟩ ?_
    intro a ha s t hs (hstep : step 0 s a = some t)
    obtain ⟨times, rfl⟩ : ∃ times, a = .server (.dispatcher times) := by
      simp only [before, List.mem_append, List.mem_replicate, List.mem_singleton] at ha
      rcases ha with (⟨-, rfl⟩ | rfl) | ⟨-, rfl⟩ <;> exact ⟨_, rfl⟩
    exact hs.dispatcher hstep
  have hlaps : 2 * lap ≤ before.countP Action.isDispatcher := by decide +kernel
  obtain ⟨-, -, -, -, -, -, -, hprogress⟩ := requests_answered_in_order hinit hsubscribe 7
  refine ⟨s, before ++ after, ⟨start, subscribe, hinit, hsubscribe⟩, ?_⟩
  rcases hprogress slot 0 0 before u (Or.inr hmain) hbefore hsubscribed hlaps after t hafter with
    hreturns | ⟨-, hcount⟩
  · exact hreturns
  · exact absurd hcount (by decide)

end MatrixTransposer.RequestCycle
