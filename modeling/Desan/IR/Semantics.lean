import Desan.IR.ValueGraph

/-! # Values under the semantics of their instructions

An assignment gives every value of a function a number, the unsigned reading of its
bits. Addresses have 64 bits. What a load, a call or a floating point operation
answers is left open. -/

namespace Desan

def Ty.bits : Ty → Option Nat
  | .pointer => some 64
  | .integer bits => some bits
  | .other _ => none

/-- A binary operator on words; nothing where the result is undefined. -/
def BinOp.eval {width : Nat} (op : BinOp) (lhs rhs : BitVec width) : Option (BitVec width) :=
  match op with
  | .add => some (lhs + rhs)
  | .sub => some (lhs - rhs)
  | .mul => some (lhs * rhs)
  | .udiv => if rhs = 0 then none else some (lhs / rhs)
  | .sdiv => if rhs = 0 then none else some (lhs.sdiv rhs)
  | .urem => if rhs = 0 then none else some (lhs % rhs)
  | .srem => if rhs = 0 then none else some (lhs.srem rhs)
  | .shl => if width ≤ rhs.toNat then none else some (lhs <<< rhs)
  | .lshr => if width ≤ rhs.toNat then none else some (lhs >>> rhs)
  | .ashr => if width ≤ rhs.toNat then none else some (lhs.sshiftRight rhs.toNat)
  | .and => some (lhs &&& rhs)
  | .or => some (lhs ||| rhs)
  | .xor => some (lhs ^^^ rhs)
  | .floating => none

/-- A cast to a width. An address space cast may change the address. -/
def CastOp.eval {width : Nat} (op : CastOp) (target : Nat) (source : BitVec width) :
    Option (BitVec target) :=
  match op with
  | .trunc | .zext | .ptrToInt | .intToPtr | .bitCast => some (source.setWidth target)
  | .sext => some (source.signExtend target)
  | .addrSpaceCast | .floating => none

abbrev Assignment := Value → Nat

namespace Assignment

variable (number : Assignment)

/-- The low bits of a value. -/
def read (width : Nat) (value : Value) : BitVec width := BitVec.ofNat width (number value)

/-- A value as a 64-bit address. -/
def word (value : Value) : BitVec 64 := number.read 64 value

end Assignment

namespace ValueGraph

/-- A value read as a signed integer of its width. -/
def signed (graph : ValueGraph) (number : Assignment) (value : Value) : Int :=
  match graph.constantInt? value, (graph.ty value).bits with
  | some int, _ => int
  | none, some width => (number.read width value).toInt
  | none, none => 0

def gepOffset (graph : ValueGraph) (number : Assignment) : List GEPIndex → BitVec 64
  | [] => 0
  | index :: rest =>
      (match index.step with
        | .field offset => BitVec.ofNat 64 offset
        | .element stride =>
            BitVec.ofInt 64 (graph.signed number index.value) * BitVec.ofNat 64 stride) +
        graph.gepOffset number rest

/-- The equation the node of a value puts on an assignment. -/
def NodeHolds (graph : ValueGraph) (number : Assignment) (value : Value) : Prop :=
  match graph.node value with
  | .instruction (.getElementPtr pointer indices)
  | .constant (.getElementPtr pointer indices) =>
      number.word value = number.word pointer + graph.gepOffset number indices
  | .instruction (.cast op source)
  | .constant (.cast op source) =>
      ∀ width target result, (graph.ty source).bits = some width →
        (graph.ty value).bits = some target →
        op.eval target (number.read width source) = some result →
          number value = result.toNat
  | .instruction (.phi incoming) =>
      incoming ≠ [] → ∃ entry ∈ incoming, number value = number entry.1
  | .instruction (.select condition ifTrue ifFalse) =>
      number value = if number condition = 1 then number ifTrue else number ifFalse
  | .instruction (.binary op lhs rhs) =>
      ∀ width result, (graph.ty value).bits = some width →
        op.eval (number.read width lhs) (number.read width rhs) = some result →
          number value = result.toNat
  | .instruction (.call site)
  | .instruction (.invoke site _ _) =>
      ∀ argument, site.returnedArg = some argument → number value = number argument
  | .constant (.int int) =>
      ∀ width, (graph.ty value).bits = some width → (number.read width value).toInt = int
  | _ => True

structure Satisfies (graph : ValueGraph) (number : Assignment) : Prop where
  inRange : ∀ value width, (graph.ty value).bits = some width → number value < 2 ^ width
  holds : ∀ value, graph.NodeHolds number value

end ValueGraph

/-! ## Words of narrow and wide values -/

theorem ofNat_mod_of_le {width : Nat} (wide : 64 ≤ width) (value : Nat) :
    BitVec.ofNat 64 (value % 2 ^ width) = BitVec.ofNat 64 value := by
  apply BitVec.eq_of_toNat_eq
  rw [BitVec.toNat_ofNat, BitVec.toNat_ofNat]
  exact Nat.mod_mod_of_dvd value (Nat.pow_dvd_pow 2 wide)

theorem ofInt_bmod (value : Int) :
    BitVec.ofInt 64 (value.bmod (2 ^ 64)) = BitVec.ofInt 64 value := by
  apply BitVec.eq_of_toInt_eq
  rw [BitVec.toInt_ofInt, BitVec.toInt_ofInt]
  exact Int.bmod_bmod

namespace Assignment

variable {number : Assignment} {graph : ValueGraph}

theorem word_eq_of_number_eq {left right : Value} (equal : number left = number right) :
    number.word left = number.word right := by
  rw [word, word, read, read, equal]

/-- The low bits of a wide constant are those of its signed value. -/
theorem word_of_toInt {width : Nat} (wide : 64 ≤ width) {value : Value} {int : Int}
    (equal : (number.read width value).toInt = int) :
    number.word value = BitVec.ofInt 64 int := by
  have whole : BitVec.ofInt width int = number.read width value := by
    rw [← equal, BitVec.ofInt_toInt]
  have low := congrArg (BitVec.setWidth 64) whole
  have left : (BitVec.ofInt width int).setWidth 64 = BitVec.ofInt 64 int := by
    rw [← BitVec.signExtend_eq_setWidth_of_le _ wide]
    apply BitVec.eq_of_toInt_eq
    rw [BitVec.toInt_signExtend, BitVec.toInt_ofInt, BitVec.toInt_ofInt,
      Nat.min_eq_left wide]
    exact Int.bmod_bmod_of_dvd (Nat.pow_dvd_pow 2 wide)
  have right : (number.read width value).setWidth 64 = number.word value := by
    rw [read, word, read]
    apply BitVec.eq_of_toNat_eq
    rw [BitVec.toNat_setWidth, BitVec.toNat_ofNat, BitVec.toNat_ofNat]
    exact Nat.mod_mod_of_dvd _ (Nat.pow_dvd_pow 2 wide)
  rw [← right, ← low, left]

end Assignment

end Desan
