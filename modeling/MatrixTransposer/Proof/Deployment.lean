import MatrixTransposer.Deployment
import MatrixTransposer.Proof.ClientSlots
import MatrixTransposer.Proof.Verification

/-!
# The steps of the whole

One constructor for each thing that a step does. Every step is one of the server and its clients as
`TransposeServer` has them, or leaves these as they are, so that all that is known of them is known
here.
-/

namespace MatrixTransposer.Deployment

open Lib
open TransposeClient (Arguments BufferVector ClientBuffers Verification)

variable {cfg : Config} {s t : State} {pid : UInt32}

inductive Move (cfg : Config) (s : State) : Action → State → Prop where
  | giveUp {pid : UInt32} {throws : Bool} {fails : BufferVector → UInt32 → Bool}
      {dist : UInt32 → Nat → UInt64} (hphase : s.phase pid = .construct)
      (hnone : constructed cfg s pid throws fails dist = none) :
      Move cfg s (.construct pid throws fails dist) (s.setPhase pid (.exited 1))
  | construct {pid : UInt32} {throws : Bool} {fails : BufferVector → UInt32 → Bool}
      {dist : UInt32 → Nat → UInt64} {buffers : ClientBuffers} {memory : Memory}
      (hphase : s.phase pid = .construct) (hpid : pid ≠ 0)
      (hsome : constructed cfg s pid throws fails dist = some (buffers, memory)) :
      Move cfg s (.construct pid throws fails dist)
        { s with
          phase := Function.update s.phase pid .subscribe
          buffers := Function.update s.buffers pid (some buffers)
          memory := memory }
  | subscribe {pid : UInt32} (hphase : s.phase pid = .subscribe) :
      Move cfg s (.main pid)
        ((s.sendToServer (cfg.socket pid) (cfg.subscribeMessage pid)).setPhase pid .awaitResponse)
  | sleep {pid : UInt32} (hphase : s.phase pid = .awaitResponse) : Move cfg s (.main pid) s
  | begin {pid : UInt32} (hphase : s.phase pid = .awaitResponse)
      (hreceived : s.subscribeResponseReceived pid = true) :
      Move cfg s (.main pid) (s.setPhase pid .requests)
  | client {pid : UInt32} {cycle : RequestCycle.State} (hphase : s.phase pid = .requests)
      (hstep : TransposeServer.step cfg.uninitialized s.cycle (.client pid) = some cycle) :
      Move cfg s (.main pid) { s with cycle := cycle }
  | finish {pid : UInt32} (hphase : s.phase pid = .requests)
      (hdone : (s.cycle.clients pid).main = .done) :
      Move cfg s (.main pid) (s.setPhase pid .unsubscribe)
  | unsubscribe {pid : UInt32} (hphase : s.phase pid = .unsubscribe) :
      Move cfg s (.main pid)
        ((s.sendToServer (cfg.socket pid) (cfg.unsubscribeMessage pid)).setPhase pid .verify)
  | verify {pid : UInt32} {buffers : ClientBuffers} {v : Verification}
      (hphase : s.phase pid = .verify) (hbuffers : s.buffers pid = some buffers)
      (hverify : TransposeClient.verify cfg.rawPointer pid (cfg.arguments pid).m
        (cfg.arguments pid).n buffers (cfg.arguments pid).k s.memory = some v) :
      Move cfg s (.main pid)
        { s with phase := Function.update s.phase pid (.exited v.status), memory := v.mem }
  | interrupt {pid : UInt32} {cycle : RequestCycle.State}
      (hstep : TransposeServer.step cfg.uninitialized s.cycle (.interrupt pid) = some cycle) :
      Move cfg s (.interrupt pid) { s with cycle := cycle }
  | receive {pid : UInt32} {message : ClientServerMessage} {rest : List ClientServerMessage}
      (hnext : s.toClient (cfg.socket pid) = message :: rest) :
      Move cfg s (.receive pid)
        { s with
          toClient := Function.update s.toClient (cfg.socket pid) rest
          subscribeResponseReceived := Function.update s.subscribeResponseReceived pid true }
  | message {fd : Nat} {message : ClientServerMessage} {rest : List ClientServerMessage}
      {cycle : RequestCycle.State} (hresponse : s.response = none)
      (hnext : s.toServer fd = message :: rest)
      (hstep : TransposeServer.step cfg.uninitialized s.cycle
        (.server (.message { socket := fd } message)) = some cycle) :
      Move cfg s (.message fd)
        { s with
          cycle := cycle
          toServer := Function.update s.toServer fd rest
          caller := some ({ socket := fd }, message.senderId) }
  | handler {throws : Bool} {cycle : RequestCycle.State}
      (hadds : adds s.cycle.server.handler = false)
      (hstep : TransposeServer.step cfg.uninitialized s.cycle (.server (.handler throws)) =
        some cycle) :
      Move cfg s (.handler throws) { s with cycle := cycle }
  | added {throws : Bool} {cycle : RequestCycle.State}
      (hadds : adds s.cycle.server.handler = true)
      (hstep : TransposeServer.step cfg.uninitialized s.cycle (.server (.handler throws)) =
        some cycle) :
      Move cfg s (.handler throws)
        { s with
          cycle := cycle
          response := s.caller.map ({ s with cycle := cycle } : State).responseTo }
  | send {context : UnixSockIpcContext} {message : ClientServerMessage}
      (hresponse : s.response = some (context, message)) :
      Move cfg s .send
        { s with
          toClient := Function.update s.toClient context.socket
            (s.toClient context.socket ++ [message])
          response := none }
  | start {times : Option (UInt64 × UInt64)} {slot : Fin maxClients} {bufferIndex : UInt32}
      {original transposed : SharedMatrixBuffer} (hjob : s.job = some (slot, bufferIndex))
      (hidle : s.threads = none)
      (horiginal : (s.cycle.server.workspace.clientBank slot).matrixBuffers[bufferIndex.toNat]? =
        some original)
      (htransposed :
        (s.cycle.server.workspace.clientBank slot).matrixBuffersTr[bufferIndex.toNat]? =
          some transposed) :
      Move cfg s (.dispatcher times)
        { s with
          threads := some (tiledPool (cfg.rawPointer original) (cfg.rawPointer transposed)
            (s.cycle.server.workspace.clientBank slot).matrixSize.numRows
            (s.cycle.server.workspace.clientBank slot).matrixSize.numColumns transposeTileSize
            cfg.numWorkerThreads s.memory).todo }
  | join {times : Option (UInt64 × UInt64)} {slot : Fin maxClients} {bufferIndex : UInt32}
      {todo : UInt32 → List (Assign Nat)} {cycle : RequestCycle.State}
      (hjob : s.job = some (slot, bufferIndex)) (hthreads : s.threads = some todo)
      (hjoined : joined cfg todo = true)
      (hstep : TransposeServer.step cfg.uninitialized s.cycle (.server (.dispatcher times)) =
        some cycle) :
      Move cfg s (.dispatcher times) { s with cycle := cycle, threads := none }
  | dispatcher {times : Option (UInt64 × UInt64)} {cycle : RequestCycle.State}
      (hjob : s.job = none)
      (hstep : TransposeServer.step cfg.uninitialized s.cycle (.server (.dispatcher times)) =
        some cycle) :
      Move cfg s (.dispatcher times) { s with cycle := cycle }
  | worker {t : UInt32} {todo : UInt32 → List (Assign Nat)} {c : Assign Nat}
      {rest : List (Assign Nat)} (hthreads : s.threads = some todo) (htodo : todo t = c :: rest) :
      Move cfg s (.worker t)
        { s with memory := c.run s.memory, threads := some (Function.update todo t rest) }
  | stop {cycle : RequestCycle.State}
      (hstep : TransposeServer.step cfg.uninitialized s.cycle (.server .stop) = some cycle) :
      Move cfg s .stop { s with cycle := cycle }

theorem cycleStep_eq_some {a : TransposeServer.Action} (h : cycleStep cfg s a = some t) :
    ∃ cycle, TransposeServer.step cfg.uninitialized s.cycle a = some cycle ∧
      t = { s with cycle := cycle } := by
  obtain ⟨cycle, hstep, rfl⟩ := Option.map_eq_some_iff.mp h
  exact ⟨cycle, hstep, rfl⟩

theorem move_of_mainStep (h : mainStep cfg s pid = some t) : Move cfg s (.main pid) t := by
  unfold mainStep at h
  split at h
  case h_1 => cases h
  case h_2 => cases h
  case h_3 hphase =>
    cases h
    exact .subscribe hphase
  case h_4 hphase =>
    split at h
    case isTrue hreceived =>
      cases h
      exact .begin hphase hreceived
    case isFalse =>
      cases h
      exact .sleep hphase
  case h_5 hphase =>
    split at h
    case isTrue hdone =>
      cases h
      exact .finish hphase hdone
    case isFalse =>
      obtain ⟨cycle, hstep, rfl⟩ := cycleStep_eq_some h
      exact .client hphase hstep
  case h_6 hphase =>
    cases h
    exact .unsubscribe hphase
  case h_7 hphase =>
    obtain ⟨buffers, hbuffers, hrest⟩ := Option.bind_eq_some_iff.mp h
    obtain ⟨v, hverify, rfl⟩ := Option.map_eq_some_iff.mp hrest
    exact .verify hphase hbuffers hverify

theorem move_of_dispatcherStep {times : Option (UInt64 × UInt64)}
    (h : dispatcherStep cfg s times = some t) : Move cfg s (.dispatcher times) t := by
  unfold dispatcherStep at h
  split at h
  case h_1 hjob =>
    obtain ⟨cycle, hstep, rfl⟩ := cycleStep_eq_some h
    exact .dispatcher hjob hstep
  case h_2 slot bufferIndex hjob =>
    split at h
    case h_1 hidle =>
      unfold startThreads at h
      split at h
      case h_1 original transposed horiginal htransposed =>
        obtain ⟨-, hstart⟩ := Option.ite_none_right_eq_some.mp h
        cases hstart
        exact .start hjob hidle horiginal htransposed
      case h_2 => cases h
    case h_2 todo hthreads =>
      obtain ⟨hjoined, hjoin⟩ := Option.ite_none_right_eq_some.mp h
      obtain ⟨mid, hmid, rfl⟩ := Option.map_eq_some_iff.mp hjoin
      obtain ⟨cycle, hstep, rfl⟩ := cycleStep_eq_some hmid
      exact .join hjob hthreads hjoined hstep

theorem move_of_step {a : Action} (h : step cfg s a = some t) : Move cfg s a t := by
  cases a with
  | construct pid throws fails dist =>
      obtain ⟨⟨hphase, hpid, -⟩, hconstruct⟩ := Option.ite_none_right_eq_some.mp h
      split at hconstruct
      case h_1 hnone =>
        cases hconstruct
        exact .giveUp hphase hnone
      case h_2 buffers memory hsome =>
        cases hconstruct
        exact .construct hphase hpid hsome
  | main pid => exact move_of_mainStep h
  | interrupt pid =>
      obtain ⟨cycle, hstep, rfl⟩ := cycleStep_eq_some h
      exact .interrupt hstep
  | receive pid =>
      simp only [step, receiveStep] at h
      split at h
      case h_1 => cases h
      case h_2 hnext =>
        cases h
        exact .receive hnext
  | message fd =>
      obtain ⟨hresponse, hmessage⟩ := Option.ite_none_right_eq_some.mp h
      split at hmessage
      case h_1 => cases hmessage
      case h_2 hnext =>
        obtain ⟨mid, hmid, rfl⟩ := Option.map_eq_some_iff.mp hmessage
        obtain ⟨cycle, hstep, rfl⟩ := cycleStep_eq_some hmid
        exact .message (Option.isNone_iff_eq_none.mp hresponse) hnext hstep
  | handler throws =>
      obtain ⟨mid, hmid, rfl⟩ := Option.map_eq_some_iff.mp h
      obtain ⟨cycle, hstep, rfl⟩ := cycleStep_eq_some hmid
      split
      case isTrue hadds => exact .added hadds hstep
      case isFalse hadds => exact .handler (Bool.eq_false_of_not_eq_true hadds) hstep
  | send =>
      obtain ⟨⟨context, message⟩, hresponse, rfl⟩ := Option.map_eq_some_iff.mp h
      exact .send hresponse
  | dispatcher times => exact move_of_dispatcherStep h
  | worker t =>
      obtain ⟨todo, hthreads, hpool⟩ := Option.bind_eq_some_iff.mp h
      obtain ⟨pool, hstep, rfl⟩ := Option.map_eq_some_iff.mp hpool
      obtain ⟨c, rest, htodo, hstore, hrest⟩ := Pool.step_eq_some hstep
      rw [hstore, hrest]
      exact .worker hthreads htodo
  | stop =>
      obtain ⟨cycle, hstep, rfl⟩ := cycleStep_eq_some h
      exact .stop hstep

/-! ## The server and its clients by themselves -/

/-- The step of the server and its clients that a step is, if it is one. -/
def cycleActions (s : State) : Action → List TransposeServer.Action
  | .main pid =>
      if s.phase pid = .requests ∧ (s.cycle.clients pid).main ≠ .done then [.client pid] else []
  | .interrupt pid => [.interrupt pid]
  | .message fd => ((s.toServer fd).take 1).map fun m => .server (.message { socket := fd } m)
  | .handler throws => [.server (.handler throws)]
  | .dispatcher times =>
      if s.job.isSome ∧ s.threads = none then [] else [.server (.dispatcher times)]
  | .stop => [.server .stop]
  | _ => []

theorem exec_cycleActions {a : Action} (hstep : step cfg s a = some t) :
    (TransposeServer.machine cfg.uninitialized).exec s.cycle (cycleActions s a) =
      some t.cycle := by
  cases move_of_step hstep with
  | giveUp | construct | receive | send | worker => rfl
  | subscribe hphase | sleep hphase | begin hphase | unsubscribe hphase | verify hphase =>
      simp only [cycleActions, hphase, reduceCtorEq, false_and, if_false]
      rfl
  | finish hphase hdone =>
      simp only [cycleActions, hdone, ne_eq, not_true_eq_false, and_false, if_false]
      rfl
  | @client pid cycle hphase hclient =>
      have hrunning : (s.cycle.clients pid).main ≠ .done := by
        intro hdone
        have hnone : (s.cycle.clients pid).step = none := by
          simp only [RequestCycle.Client.step, hdone]
        obtain ⟨c, hc, -⟩ := Option.map_eq_some_iff.mp hclient
        cases hnone.symm.trans hc
      simp only [cycleActions, hphase, hrunning, ne_eq, not_false_eq_true, and_self, if_true]
      exact Machine.exec_singleton.mpr hclient
  | message _ hnext hmessage =>
      simp only [cycleActions, hnext, List.take_succ_cons, List.take_zero, List.map_cons,
        List.map_nil]
      exact Machine.exec_singleton.mpr hmessage
  | start hjob hidle =>
      simp only [cycleActions, hjob, hidle, Option.isSome_some, and_self, if_true]
      rfl
  | join hjob hthreads _ hdispatcher =>
      simp only [cycleActions, hthreads, reduceCtorEq, and_false, if_false]
      exact Machine.exec_singleton.mpr hdispatcher
  | dispatcher hjob hdispatcher =>
      simp only [cycleActions, hjob, Option.isSome_none, Bool.false_eq_true, false_and, if_false]
      exact Machine.exec_singleton.mpr hdispatcher
  | interrupt h | handler _ h | added _ h | stop h => exact Machine.exec_singleton.mpr h

theorem cycle_reachable (h : (machine cfg).Reachable s) :
    (TransposeServer.machine cfg.uninitialized).Reachable s.cycle := by
  have hinit : ∀ s, (machine cfg).init s →
      (TransposeServer.machine cfg.uninitialized).init s.cycle := by
    rintro s ⟨memory, rfl⟩
    exact ⟨cfg.serverPid, _, _, rfl⟩
  exact Machine.Reachable.project hinit (fun s a t hstep => exec_cycleActions hstep) h

theorem requestCycle_reachable (h : (machine cfg).Reachable s) :
    (RequestCycle.machine cfg.uninitialized).Reachable s.cycle :=
  TransposeServer.requestCycle_reachable (cycle_reachable h)

theorem serverInv_of_reachable (h : (machine cfg).Reachable s) :
    RequestCycle.ServerInv s.cycle :=
  RequestCycle.serverInv_of_reachable (requestCycle_reachable h)

/-! ## Components -/

@[simp] theorem setPhase_phase_self (s : State) (pid : UInt32) (phase : Phase) :
    (s.setPhase pid phase).phase pid = phase :=
  Function.update_self _ _ _

theorem setPhase_phase_of_ne (s : State) {p : UInt32} (h : pid ≠ p) (phase : Phase) :
    (s.setPhase p phase).phase pid = s.phase pid :=
  Function.update_of_ne h _ _

/-! ## Clients with one small matrix -/

/-- A matrix of 64 rows and 64 columns, transposed once. -/
def smallArguments : Arguments := { m := 6, n := 6, k := 1, requestRepetitions := 1 }

/-- The small buffers of all clients, each in its place. -/
def spreadPointer (buffer : SharedMatrixBuffer) : Nat :=
  ((buffer.ownerPid.toNat * 2 ^ 32 + buffer.bufferIndex.toNat) * 16 + buffer.nameSuffix.length) *
    4096

theorem length_nameSuffix (vector vector' : BufferVector) :
    vector.nameSuffix.length < 16 ∧
      (vector.nameSuffix.length = vector'.nameSuffix.length → vector = vector') := by
  cases vector <;> cases vector' <;> decide

theorem spreadPointer_apart (a b : SharedMatrixBuffer) (ha : Created (fun _ => smallArguments) a)
    (hb : Created (fun _ => smallArguments) b) (hne : a ≠ b) :
    spreadPointer a + a.mappedElements ≤ spreadPointer b ∨
      spreadPointer b + b.mappedElements ≤ spreadPointer a := by
  obtain ⟨pid, vector, i, ha⟩ := ha
  obtain ⟨pid', vector', j, hb⟩ := hb
  have hsize : (SharedMatrixBuffer.dimension 6 * SharedMatrixBuffer.dimension 6).toNat = 4096 := by
    decide
  have hi := i.toNat_lt
  have hj := j.toNat_lt
  obtain ⟨hlt, -⟩ := length_nameSuffix vector vector'
  obtain ⟨hlt', hinj⟩ := length_nameSuffix vector' vector
  have hkey : ¬ (pid.toNat = pid'.toNat ∧ i.toNat = j.toNat ∧
      vector'.nameSuffix.length = vector.nameSuffix.length) := by
    rintro ⟨hpid, hij, hlength⟩
    obtain rfl := UInt32.toNat_inj.mp hpid
    obtain rfl := UInt32.toNat_inj.mp hij
    obtain rfl := hinj hlength
    exact hne (Option.some.inj (ha.symm.trans hb))
  have hmapped := SharedMatrixBuffer.mappedElements_eq ha
  have hmapped' := SharedMatrixBuffer.mappedElements_eq hb
  obtain ⟨-, hpid, -, -, hindex, hsuffix, -⟩ := SharedMatrixBuffer.construct_eq_some ha
  obtain ⟨-, hpid', -, -, hindex', hsuffix', -⟩ := SharedMatrixBuffer.construct_eq_some hb
  simp only [smallArguments, hsize] at hmapped hmapped'
  simp only [spreadPointer, hmapped, hmapped', hpid, hpid', hindex, hindex', hsuffix, hsuffix']
  omega

/-- One thread serves clients that each have one small matrix. -/
def Config.small : Config where
  uninitialized := 0
  serverPid := 1
  numWorkerThreads := 1
  arguments _ := smallArguments
  uninitializedMessage _ := .generateSubscribeMessage 0 0 0 0
  socket pid := pid.toNat
  socket_injective _ _ h := UInt32.toNat_inj.mp h
  rawPointer := spreadPointer
  apart := spreadPointer_apart

/-- Client 7 subscribes and calls `Wait` for its request. -/
def smallRequest : List Action :=
  .construct 7 false (fun _ _ => false) (fun _ i => UInt64.ofNat i) :: .main 7 :: .message 7 ::
    List.replicate 21 (.handler false) ++ .send :: .receive 7 :: List.replicate 10 (.main 7)

/-- The dispatcher finds the request and starts the thread. -/
def smallStart : List Action := List.replicate 12 (.dispatcher none)

/-- The thread copies the matrix, and the dispatcher wakes the client. -/
def smallCopy : List Action :=
  List.replicate 4096 (.worker 0) ++ List.replicate 4 (.dispatcher none) ++
    [.dispatcher (some (0, 0))]

theorem smallRequest_waits :
    ∃ s, (machine .small).Reachable s ∧ s.phase 7 = .requests ∧
      (s.cycle.clients 7).main = .wait 0 0 := by
  have hwaits : ((machine .small).exec (initial .small fun _ => 0) smallRequest).map (fun s =>
      (decide (s.phase 7 = .requests), (s.cycle.clients 7).main)) = some (true, .wait 0 0) := by
    decide +kernel
  obtain ⟨s, hrun, hs⟩ := Option.map_eq_some_iff.mp hwaits
  simp only [Prod.mk.injEq, decide_eq_true_eq] at hs
  exact ⟨s, ⟨_, _, ⟨fun _ => 0, rfl⟩, hrun⟩, hs⟩

end MatrixTransposer.Deployment
