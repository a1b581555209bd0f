import Mathlib.Data.List.Basic

/-! Runtime objects as `gc.c` sees them: a variant tag with its payload, the mark color
and the two links that thread every cell onto the Active or the Old list. -/

namespace BrianScheme

/-- The variants of `object` with the payload fields the collector and the VM read; a
reference is the index of a cell of the slab.
Out-of-slab data (string bytes, symbol names, hashtable buckets) is not modelled; a
hashtable is represented by the key/value sequence `htb_iter` walks. `uninitialized`
stands for a cell `extend_heap` took from `MALLOC` that no constructor has written. -/
inductive Payload where
  | pair (car cdr : Nat)
  | fixnum (value : Int)
  | character (value : UInt8)
  | string
  | symbol
  | vector (elements : List Nat)
  | compoundProc (env params body : Nat)
  | syntaxProc (env params body : Nat)
  | compiledProc (bytecode env : Nat)
  | compiledSyntaxProc (bytecode env : Nat)
  | metaProc (proc data : Nat)
  | primitiveProc (fn : Nat)
  | hashTable (entries : List (Nat × Nat))
  | theEmptyList
  | boolean (value : Bool)
  | uninitialized
  deriving DecidableEq, Repr

/-- The references `move_reachable` passes to `maybe_move`, in its order. -/
def Payload.children : Payload → List Nat
  | .pair car cdr => [car, cdr]
  | .compoundProc env params body => [env, params, body]
  | .syntaxProc env params body => [env, params, body]
  | .vector elements => elements
  | .compiledProc bytecode env => [bytecode, env]
  | .compiledSyntaxProc bytecode env => [bytecode, env]
  | .metaProc proc data => [proc, data]
  | .hashTable entries => entries.flatMap fun entry => [entry.1, entry.2]
  | _ => []

/-- Whether `finalize_object` has out-of-slab memory to release for this variant. -/
def Payload.needsFinalizer : Payload → Bool
  | .string | .vector _ | .hashTable _ => true
  | _ => false

/-- A cell. `color` is the 8-bit `char` mark, kept in `0 .. 255`. -/
@[ext] structure Cell where
  payload : Payload
  color : Nat
  prev : Option Nat
  next : Option Nat
  deriving DecidableEq, Repr

/-- The cells of the slab; addresses past the last `extend_heap` are never read. -/
abbrev Cells := Nat → Cell

def setPrev (cells : Cells) (a : Nat) (link : Option Nat) : Cells :=
  Function.update cells a { cells a with prev := link }

def setNext (cells : Cells) (a : Nat) (link : Option Nat) : Cells :=
  Function.update cells a { cells a with next := link }

def setColor (cells : Cells) (a : Nat) (color : Nat) : Cells :=
  Function.update cells a { cells a with color := color }

def setPayload (cells : Cells) (a : Nat) (payload : Payload) : Cells :=
  Function.update cells a { cells a with payload := payload }

section Updates

variable (cells : Cells) (a b : Nat)

@[simp] theorem setPrev_prev (link : Option Nat) :
    (setPrev cells a link b).prev = if b = a then link else (cells b).prev := by
  by_cases h : b = a <;> simp [setPrev, Function.update, h]

@[simp] theorem setPrev_next (link : Option Nat) :
    (setPrev cells a link b).next = (cells b).next := by
  by_cases h : b = a <;> simp [setPrev, Function.update, h]

@[simp] theorem setPrev_color (link : Option Nat) :
    (setPrev cells a link b).color = (cells b).color := by
  by_cases h : b = a <;> simp [setPrev, Function.update, h]

@[simp] theorem setPrev_payload (link : Option Nat) :
    (setPrev cells a link b).payload = (cells b).payload := by
  by_cases h : b = a <;> simp [setPrev, Function.update, h]

@[simp] theorem setNext_next (link : Option Nat) :
    (setNext cells a link b).next = if b = a then link else (cells b).next := by
  by_cases h : b = a <;> simp [setNext, Function.update, h]

@[simp] theorem setNext_prev (link : Option Nat) :
    (setNext cells a link b).prev = (cells b).prev := by
  by_cases h : b = a <;> simp [setNext, Function.update, h]

@[simp] theorem setNext_color (link : Option Nat) :
    (setNext cells a link b).color = (cells b).color := by
  by_cases h : b = a <;> simp [setNext, Function.update, h]

@[simp] theorem setNext_payload (link : Option Nat) :
    (setNext cells a link b).payload = (cells b).payload := by
  by_cases h : b = a <;> simp [setNext, Function.update, h]

@[simp] theorem setColor_color (color : Nat) :
    (setColor cells a color b).color = if b = a then color else (cells b).color := by
  by_cases h : b = a <;> simp [setColor, Function.update, h]

@[simp] theorem setColor_prev (color : Nat) :
    (setColor cells a color b).prev = (cells b).prev := by
  by_cases h : b = a <;> simp [setColor, Function.update, h]

@[simp] theorem setColor_next (color : Nat) :
    (setColor cells a color b).next = (cells b).next := by
  by_cases h : b = a <;> simp [setColor, Function.update, h]

@[simp] theorem setColor_payload (color : Nat) :
    (setColor cells a color b).payload = (cells b).payload := by
  by_cases h : b = a <;> simp [setColor, Function.update, h]

@[simp] theorem setPayload_payload (payload : Payload) :
    (setPayload cells a payload b).payload = if b = a then payload else (cells b).payload := by
  by_cases h : b = a <;> simp [setPayload, Function.update, h]

@[simp] theorem setPayload_prev (payload : Payload) :
    (setPayload cells a payload b).prev = (cells b).prev := by
  by_cases h : b = a <;> simp [setPayload, Function.update, h]

@[simp] theorem setPayload_next (payload : Payload) :
    (setPayload cells a payload b).next = (cells b).next := by
  by_cases h : b = a <;> simp [setPayload, Function.update, h]

@[simp] theorem setPayload_color (payload : Payload) :
    (setPayload cells a payload b).color = (cells b).color := by
  by_cases h : b = a <;> simp [setPayload, Function.update, h]

end Updates

end BrianScheme
