import MatrixTransposer.Lib.Decimal
import MatrixTransposer.Proof.SharedMemoryFailure
import MatrixTransposer.ShmObjectNames

/-!
# No two objects have one name

A name can be read from the left: its first character tells the kind of the object, and the brace
after a number tells where the number ends. What the suffix holds does not matter. In the namespace
an object is reached under one name only, so processes that map the same object have asked for it
by the same name.
-/

namespace MatrixTransposer

section Names

variable {opening opening' rest rest' : String} {number number' : UInt32}

theorem toList_shmObjectName (opening : String) (number : UInt32) (rest : String) :
    (shmObjectName opening number rest).toList =
      opening.toList ++ (Nat.toDigits 10 number.toNat ++ '\x7d' :: rest.toList) := by
  have hnumber : (toString number).toList = Nat.toDigits 10 number.toNat := Nat.toList_repr
  simp [shmObjectName, hnumber]

theorem shmObjectName_inj :
    shmObjectName opening number rest = shmObjectName opening number' rest' ↔
      number = number' ∧ rest = rest' := by
  rw [← String.toList_inj, toList_shmObjectName, toList_shmObjectName, List.append_cancel_left_eq,
    Lib.toDigits_append_cons_inj (by decide), UInt32.toNat_inj, String.toList_inj]

theorem shmObjectName_ne (hopening : opening.toList ≠ []) (hopening' : opening'.toList ≠ [])
    (hne : opening.toList.head? ≠ opening'.toList.head?) :
    shmObjectName opening number rest ≠ shmObjectName opening' number' rest' := by
  intro heq
  have hhead := congrArg (fun name => name.toList.head?) heq
  simp only [toList_shmObjectName] at hhead
  rw [List.head?_append_of_ne_nil _ hopening, List.head?_append_of_ne_nil _ hopening'] at hhead
  exact hne hhead

/-- The name reaches `shm_open` as a C string, which ends at the first NUL. -/
theorem nul_notMem_shmObjectName (hopening : '\x00' ∉ opening.toList)
    (hrest : '\x00' ∉ rest.toList) : '\x00' ∉ (shmObjectName opening number rest).toList := by
  have hdigits : '\x00' ∉ Nat.toDigits 10 number.toNat := fun hmem => by
    have hdigit := Nat.isDigit_of_mem_toDigits (by decide) (by decide) hmem
    revert hdigit
    decide
  simp only [toList_shmObjectName, List.mem_append, List.mem_cons]
  rintro (hmem | hmem | hbrace | hmem)
  · exact hopening hmem
  · exact hdigits hmem
  · revert hbrace
    decide
  · exact hrest hmem

end Names

namespace SharedMatrixBuffer

theorem createShmObjectName_eq (ownerPid k : UInt32) (nameSuffix : String) :
    createShmObjectName ownerPid k nameSuffix =
      shmObjectName "mat_buff_uid\x7b" ownerPid (shmObjectName "_k\x7b" k nameSuffix) := by
  calc
    createShmObjectName ownerPid k nameSuffix =
        "mat_buff_uid\x7b" ++ toString ownerPid ++ ("\x7d" ++ "_k\x7b") ++ toString k ++ "\x7d" ++
          nameSuffix := rfl
    _ = shmObjectName "mat_buff_uid\x7b" ownerPid (shmObjectName "_k\x7b" k nameSuffix) := by
      simp only [shmObjectName, String.append_assoc]

theorem createShmObjectName_inj {ownerPid ownerPid' k k' : UInt32}
    {nameSuffix nameSuffix' : String} :
    createShmObjectName ownerPid k nameSuffix = createShmObjectName ownerPid' k' nameSuffix' ↔
      ownerPid = ownerPid' ∧ k = k' ∧ nameSuffix = nameSuffix' := by
  rw [createShmObjectName_eq, createShmObjectName_eq, shmObjectName_inj, shmObjectName_inj]

end SharedMatrixBuffer

section Kinds

variable (ownerPid ownerPid' k : UInt32) (nameSuffix nameSuffix' : String)

theorem matrixBufferName_ne_futexName :
    SharedMatrixBuffer.createShmObjectName ownerPid k nameSuffix ≠
      FutexSignaller.createShmObjectName ownerPid' nameSuffix' := by
  rw [SharedMatrixBuffer.createShmObjectName_eq]
  exact shmObjectName_ne (by decide) (by decide) (by decide)

theorem matrixBufferName_ne_queueName :
    SharedMatrixBuffer.createShmObjectName ownerPid k nameSuffix ≠
      SpscQueueSeqLock.createShmObjectName ownerPid' nameSuffix' := by
  rw [SharedMatrixBuffer.createShmObjectName_eq]
  exact shmObjectName_ne (by decide) (by decide) (by decide)

theorem futexName_ne_queueName :
    FutexSignaller.createShmObjectName ownerPid nameSuffix ≠
      SpscQueueSeqLock.createShmObjectName ownerPid' nameSuffix' :=
  shmObjectName_ne (by decide) (by decide) (by decide)

end Kinds

/-! ## The objects of the clients -/

theorem TransposeClient.BufferVector.nameSuffix_inj {vector vector' : BufferVector} :
    vector.nameSuffix = vector'.nameSuffix ↔ vector = vector' := by
  cases vector <;> cases vector' <;> decide

namespace ClientObject

theorem shmObjectName_inj {clientPid clientPid' : UInt32} {object object' : ClientObject} :
    object.shmObjectName clientPid = object'.shmObjectName clientPid' ↔
      clientPid = clientPid' ∧ object = object' := by
  cases object with
  | matrixBuffer vector bufferIndex =>
      cases object' with
      | matrixBuffer vector' bufferIndex' =>
          rw [shmObjectName, shmObjectName, SharedMatrixBuffer.createShmObjectName_inj,
            TransposeClient.BufferVector.nameSuffix_inj, matrixBuffer.injEq,
            and_comm (a := bufferIndex = bufferIndex')]
      | requestQueue => simp [shmObjectName, matrixBufferName_ne_queueName]
      | transposeReadyFutex => simp [shmObjectName, matrixBufferName_ne_futexName]
  | requestQueue =>
      cases object' with
      | matrixBuffer vector bufferIndex =>
          simp [shmObjectName, (matrixBufferName_ne_queueName _ _ _ _ _).symm]
      | requestQueue =>
          simp [shmObjectName, SpscQueueSeqLock.createShmObjectName,
            MatrixTransposer.shmObjectName_inj]
      | transposeReadyFutex => simp [shmObjectName, (futexName_ne_queueName _ _ _ _).symm]
  | transposeReadyFutex =>
      cases object' with
      | matrixBuffer vector bufferIndex =>
          simp [shmObjectName, (matrixBufferName_ne_futexName _ _ _ _ _).symm]
      | requestQueue => simp [shmObjectName, futexName_ne_queueName]
      | transposeReadyFutex =>
          simp [shmObjectName, FutexSignaller.createShmObjectName,
            MatrixTransposer.shmObjectName_inj]

theorem nul_notMem_shmObjectName (clientPid : UInt32) (object : ClientObject) :
    '\x00' ∉ (object.shmObjectName clientPid).toList := by
  cases object with
  | matrixBuffer vector bufferIndex =>
      have hsuffix : '\x00' ∉ vector.nameSuffix.toList := by cases vector <;> decide
      rw [shmObjectName, SharedMatrixBuffer.createShmObjectName_eq]
      exact MatrixTransposer.nul_notMem_shmObjectName (by decide)
        (MatrixTransposer.nul_notMem_shmObjectName (by decide) hsuffix)
  | requestQueue => exact MatrixTransposer.nul_notMem_shmObjectName (by decide) (by decide)
  | transposeReadyFutex => exact MatrixTransposer.nul_notMem_shmObjectName (by decide) (by decide)

end ClientObject

/-- **The names are free of collisions.** A name determines the class that composed it and every
argument, whatever the suffix holds. So the objects that clients own have different names, which no
NUL cuts short, and whatever the processes construct and destroy, two mappings of one object belong
to the same client and the same buffer, queue or futex. -/
theorem createShmObjectName_collision_free :
    (∀ ownerPid ownerPid' k k' nameSuffix nameSuffix',
      SharedMatrixBuffer.createShmObjectName ownerPid k nameSuffix =
          SharedMatrixBuffer.createShmObjectName ownerPid' k' nameSuffix' ↔
        ownerPid = ownerPid' ∧ k = k' ∧ nameSuffix = nameSuffix') ∧
    (∀ ownerPid ownerPid' nameSuffix nameSuffix',
      FutexSignaller.createShmObjectName ownerPid nameSuffix =
          FutexSignaller.createShmObjectName ownerPid' nameSuffix' ↔
        ownerPid = ownerPid' ∧ nameSuffix = nameSuffix') ∧
    (∀ ownerPid ownerPid' nameSuffix nameSuffix',
      SpscQueueSeqLock.createShmObjectName ownerPid nameSuffix =
          SpscQueueSeqLock.createShmObjectName ownerPid' nameSuffix' ↔
        ownerPid = ownerPid' ∧ nameSuffix = nameSuffix') ∧
    (∀ ownerPid ownerPid' k nameSuffix nameSuffix',
      SharedMatrixBuffer.createShmObjectName ownerPid k nameSuffix ≠
          FutexSignaller.createShmObjectName ownerPid' nameSuffix' ∧
        SharedMatrixBuffer.createShmObjectName ownerPid k nameSuffix ≠
          SpscQueueSeqLock.createShmObjectName ownerPid' nameSuffix' ∧
        FutexSignaller.createShmObjectName ownerPid nameSuffix ≠
          SpscQueueSeqLock.createShmObjectName ownerPid' nameSuffix') ∧
    (∀ clientPid object, '\x00' ∉ (ClientObject.shmObjectName clientPid object).toList) ∧
    ∀ s, SharedMemoryObjects.machine.Reachable s →
      ∀ id id' shared shared', s.live id = some shared → s.live id' = some shared' →
        ∀ clientPid clientPid' object object',
          shared.name = ClientObject.shmObjectName clientPid object →
          shared'.name = ClientObject.shmObjectName clientPid' object' →
          shared.object = shared'.object → clientPid = clientPid' ∧ object = object' := by
  refine ⟨?_, ?_, ?_, ?_, ClientObject.nul_notMem_shmObjectName, ?_⟩
  · intro ownerPid ownerPid' k k' nameSuffix nameSuffix'
    exact SharedMatrixBuffer.createShmObjectName_inj
  · intro ownerPid ownerPid' nameSuffix nameSuffix'
    exact shmObjectName_inj
  · intro ownerPid ownerPid' nameSuffix nameSuffix'
    exact shmObjectName_inj
  · intro ownerPid ownerPid' k nameSuffix nameSuffix'
    exact ⟨matrixBufferName_ne_futexName ownerPid ownerPid' k nameSuffix nameSuffix',
      matrixBufferName_ne_queueName ownerPid ownerPid' k nameSuffix nameSuffix',
      futexName_ne_queueName ownerPid ownerPid' nameSuffix nameSuffix'⟩
  · intro s hs id id' shared shared' hlive hlive' clientPid clientPid' object object' hname hname'
      hobject
    have hsame := SharedMemoryObjects.name_eq_of_object_eq hs hlive hlive' hobject
    rw [hname, hname'] at hsame
    exact ClientObject.shmObjectName_inj.mp hsame

end MatrixTransposer
