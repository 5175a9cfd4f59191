namespace QbCodec

inductive ByteOrder
  | big
  | little
  deriving DecidableEq

namespace ByteOrder

-- Powers of numbers are those of the core library, whatever is imported beside it.
attribute [instance (1100), default_instance 20000] instPowNat

def inverse : ByteOrder → ByteOrder
  | big => little
  | little => big

def lowFirst : Nat → Nat → List UInt8
  | 0, _ => []
  | width + 1, n => n.toUInt8 :: lowFirst width (n / 256)

def valueLowFirst : List UInt8 → Nat
  | [] => 0
  | b :: rest => b.toNat + 256 * valueLowFirst rest

def encode (o : ByteOrder) (width n : Nat) : List UInt8 :=
  match o with
  | big => (lowFirst width n).reverse
  | little => lowFirst width n

def decode (o : ByteOrder) (bs : List UInt8) : Nat :=
  match o with
  | big => valueLowFirst bs.reverse
  | little => valueLowFirst bs

@[simp] theorem inverse_inverse (o : ByteOrder) : o.inverse.inverse = o := by cases o <;> rfl

@[simp] theorem length_lowFirst (width n : Nat) : (lowFirst width n).length = width := by
  induction width generalizing n with
  | zero => rfl
  | succ width ih => simp [lowFirst, ih]

@[simp] theorem length_encode (o : ByteOrder) (width n : Nat) :
    (o.encode width n).length = width := by
  cases o <;> simp [encode]

theorem valueLowFirst_lowFirst {width n : Nat} (h : n < 256 ^ width) :
    valueLowFirst (lowFirst width n) = n := by
  induction width generalizing n with
  | zero => simp at h; simp [lowFirst, valueLowFirst, h]
  | succ width ih =>
    have hdiv : n / 256 < 256 ^ width := by
      rw [Nat.pow_succ] at h
      exact Nat.div_lt_of_lt_mul (by omega)
    simp only [lowFirst, valueLowFirst, ih hdiv]
    have : n.toUInt8.toNat = n % 256 := by simp
    omega

theorem decode_encode (o : ByteOrder) {width n : Nat} (h : n < 256 ^ width) :
    o.decode (o.encode width n) = n := by
  cases o <;> simp [encode, decode, valueLowFirst_lowFirst h]

end ByteOrder

end QbCodec
