import MatrixTransposer.Lib.Machine
import Mathlib.Logic.Function.Basic

/-!
# `SharedMemory` over the kernel's namespace

The constructor and the destructor of `SharedMemory`, system call by system call. A name refers to a
shared-memory object; `shm_unlink` takes the name away and leaves the object to those who have
mapped it. That a system call fails for a reason outside the namespace is a decision of the
environment.
-/

namespace MatrixTransposer.SharedMemoryObjects

inductive Ownership where
  | owner
  | borrower
  deriving DecidableEq

inductive BufferInitMode where
  | zero
  | noInit
  deriving DecidableEq

structure ShmObject where
  sizeInBytes : UInt64
  contents : Nat → UInt8

structure Kernel where
  names : String → Option Nat
  objects : Nat → ShmObject
  nextObject : Nat

/-- The system calls that fail although nothing in the namespace makes them. -/
structure Faults where
  shmOpen : Bool
  ftruncate : Bool
  mmap : Bool
  deriving DecidableEq

def Faults.none : Faults := { shmOpen := false, ftruncate := false, mmap := false }

namespace Kernel

/-- What `O_CREAT` makes for a name that does not exist: an object of size 0. -/
def create (k : Kernel) (name : String) : Kernel :=
  { names := Function.update k.names name (some k.nextObject)
    objects := Function.update k.objects k.nextObject { sizeInBytes := 0, contents := fun _ => 0 }
    nextObject := k.nextObject + 1 }

/-- `shm_open` with `O_CREAT | O_RDWR`, and with `O_EXCL` if `exclusive` is set. -/
def shmOpen (k : Kernel) (name : String) (exclusive fault : Bool) : Option (Kernel × Nat) :=
  if fault then none
  else
    match k.names name with
    | some object => if exclusive then none else some (k, object)
    | none => some (k.create name, k.nextObject)

def setObject (k : Kernel) (object : Nat) (value : ShmObject) : Kernel :=
  { k with objects := Function.update k.objects object value }

def ftruncate (k : Kernel) (object : Nat) (sizeInBytes : UInt64) (fault : Bool) : Option Kernel :=
  if fault then none
  else some (k.setObject object { k.objects object with sizeInBytes := sizeInBytes })

/-- `mmap` refuses a length of zero. -/
def mmapFails (sizeInBytes : UInt64) (fault : Bool) : Bool := fault || sizeInBytes == 0

def shmUnlink (k : Kernel) (name : String) : Kernel :=
  { k with names := Function.update k.names name none }

def fillWithZero (k : Kernel) (object : Nat) (sizeInBytes : UInt64) : Kernel :=
  k.setObject object { k.objects object with
    contents := fun i => if i < sizeInBytes.toNat then 0 else (k.objects object).contents i }

end Kernel

/-- The constructor: the namespace it leaves, and the mapped object or the text of the exception,
without the `errno` that ends it. -/
def construct (k : Kernel) (sizeInBytes : UInt64) (name : String) (ownership : Ownership)
    (initMode : BufferInitMode) (faults : Faults) : Kernel × Except String Nat :=
  match k.shmOpen name (ownership = .owner) faults.shmOpen with
  | none => (k, .error s!"Failed to create shared memory object for {name}")
  | some (k, object) =>
      let truncated :=
        if ownership = .owner then k.ftruncate object sizeInBytes faults.ftruncate else some k
      match truncated with
      | none => (k.shmUnlink name,
          .error s!"Failed to set shared memory size ({sizeInBytes} bytes) for {name}")
      | some k =>
          if Kernel.mmapFails sizeInBytes faults.mmap then
            -- a borrower takes the name away as well
            (k.shmUnlink name, .error s!"Failed to map shared memory for {name}")
          else
            (if ownership = .owner ∧ initMode = .zero then k.fillWithZero object sizeInBytes else k,
              .ok object)

/-- What a process holds once the constructor has returned. -/
structure Instance where
  name : String
  sizeInBytes : UInt64
  ownership : Ownership
  object : Nat

/-- The destructor. -/
def destroy (k : Kernel) (shared : Instance) : Kernel :=
  match shared.ownership with
  | .owner => k.shmUnlink shared.name
  | .borrower => k

/-- The namespace, and the live `SharedMemory` objects of all processes. -/
structure State where
  kernel : Kernel
  live : Nat → Option Instance

inductive Action where
  | construct (id : Nat) (sizeInBytes : UInt64) (name : String) (ownership : Ownership)
      (initMode : BufferInitMode) (faults : Faults)
  | destroy (id : Nat)

def step (s : State) : Action → Option State
  | .construct id sizeInBytes name ownership initMode faults =>
      match s.live id with
      | some _ => none
      | none =>
          match construct s.kernel sizeInBytes name ownership initMode faults with
          | (kernel, .ok object) => some
              { kernel := kernel
                live := Function.update s.live id
                  (some { name, sizeInBytes, ownership, object }) }
          | (kernel, .error _) => some { s with kernel := kernel }
  | .destroy id =>
      match s.live id with
      | none => none
      | some shared => some
          { kernel := destroy s.kernel shared, live := Function.update s.live id none }

/-- Nothing exists yet. -/
def initial : State :=
  { kernel := { names := fun _ => none, nextObject := 0
                objects := fun _ => { sizeInBytes := 0, contents := fun _ => 0 } }
    live := fun _ => none }

def machine : Lib.Machine State Action where
  init s := s = initial
  step := step

/-- Sizes are not zero, and no system call fails but `shm_open` because of the name. -/
def healthy : Action → Bool
  | .construct _ sizeInBytes _ _ _ faults => sizeInBytes != 0 && faults = .none
  | .destroy _ => true

def healthyMachine : Lib.Machine State Action where
  init := machine.init
  step s a := if healthy a then step s a else none

/-- The objects that owners create, with the size they set. -/
def created (s : State) : Action → List (Nat × UInt64)
  | .construct _ sizeInBytes name .owner initMode faults =>
      match (construct s.kernel sizeInBytes name .owner initMode faults).2 with
      | .ok object => [(object, sizeInBytes)]
      | .error _ => []
  | _ => []

end MatrixTransposer.SharedMemoryObjects
