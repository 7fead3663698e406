import Mathlib.Data.List.Induction
import Mathlib.Data.List.TakeWhile
import Mathlib.Data.Rat.Defs
import Mathlib.Tactic.Ring

/-!
The vocabulary of the C++ sources: byte strings, the wrapping integer conversions, the ways a
call can end other than by returning, and doubles that are only stored and copied.
-/
namespace Win64Server

/-- A `std::string`: any bytes, NUL included. -/
abbrev CxxString := List UInt8

/-- What a callee given `s.c_str()` sees: the bytes before the first NUL. -/
def cStr (s : CxxString) : CxxString := s.takeWhile (· ≠ 0)

theorem cStr_eq_self {s : CxxString} (h : 0 ∉ s) : cStr s = s := by
  refine List.takeWhile_eq_self_iff.mpr fun b hb => ?_
  have hne : b ≠ 0 := fun h0 => h (h0 ▸ hb)
  simpa using hne

theorem zero_notMem_cStr (s : CxxString) : 0 ∉ cStr s := by
  intro h
  simpa using List.mem_takeWhile_imp h

/-- A byte as a `char`, which is signed. -/
def toInt8 (x : ℤ) : ℤ := x.bmod (2 ^ 8)

/-- `static_cast<int>`: the value modulo 2^32 in the signed range. -/
def toInt32 (x : ℤ) : ℤ := x.bmod (2 ^ 32)

/-- The bit pattern of a `long long` read as a signed number. -/
def toInt64 (x : ℤ) : ℤ := x.bmod (2 ^ 64)

theorem toInt32_of_lt {x : ℤ} (hlow : -2 ^ 31 ≤ x) (hhigh : x < 2 ^ 31) : toInt32 x = x := by
  unfold toInt32
  rw [Int.bmod_eq_of_le] <;> omega

theorem toInt32_of_ge {x : ℤ} (hlow : 2 ^ 31 ≤ x) (hhigh : x < 2 ^ 32) :
    toInt32 x = x - 2 ^ 32 := by
  have hmod : x % ((2 ^ 32 : ℕ) : ℤ) = x := Int.emod_eq_of_lt (by omega) (by omega)
  unfold toInt32 Int.bmod
  dsimp only
  rw [hmod, if_neg (by omega)]
  norm_num

theorem toInt32_bounds {x : ℤ} (h : 0 ≤ x) : toInt32 x ≤ x ∧ toInt32 x < 2 ^ 31 := by
  unfold toInt32 Int.bmod
  dsimp only
  split <;> omega

/-- `(char)x` and `(unsigned char)x`: the low byte. -/
def toChar (x : ℤ) : UInt8 := UInt8.ofNat (x % 256).toNat

/-- A number of so many bytes, most significant first. -/
abbrev Bytes (n : ℕ) := {bytes : List UInt8 // bytes.length = n}

/-- The contents of a string field. -/
abbrev Text := {text : CxxString // 0 ∉ text}

/-- The number a big-endian byte sequence spells. -/
def beNat (bytes : List UInt8) : ℕ := bytes.foldl (fun acc b => acc * 256 + b.toNat) 0

/-- The low `n` bytes of `x`, most significant first: what `(x >> 8 * i) & 0xFF` gives. -/
def beBytes : ℕ → ℤ → List UInt8
  | 0, _ => []
  | n + 1, x => beBytes n (x / 256) ++ [toChar x]

@[simp] theorem beBytes_length (n : ℕ) (x : ℤ) : (beBytes n x).length = n := by
  induction n generalizing x with
  | zero => rfl
  | succ n ih => simp [beBytes, ih]

theorem beNat_append_singleton (bytes : List UInt8) (b : UInt8) :
    beNat (bytes ++ [b]) = beNat bytes * 256 + b.toNat := by
  simp [beNat]

theorem beNat_lt (bytes : List UInt8) : beNat bytes < 256 ^ bytes.length := by
  induction bytes using List.reverseRecOn with
  | nil => decide
  | append_singleton bytes b ih =>
    have hb := b.toNat_lt
    rw [beNat_append_singleton, List.length_append, List.length_singleton, pow_succ]
    omega

/-- Reading back the low bytes of a number gives it modulo their range. -/
theorem beNat_beBytes (n : ℕ) (x : ℤ) : (beNat (beBytes n x) : ℤ) = x % 256 ^ n := by
  induction n generalizing x with
  | zero =>
    rw [pow_zero, Int.emod_one]
    rfl
  | succ n ih =>
    have hbyte : ((toChar x).toNat : ℤ) = x % 256 := by
      have hlow : 0 ≤ x % 256 := Int.emod_nonneg _ (by decide)
      have hhigh : x % 256 < 256 := Int.emod_lt_of_pos _ (by decide)
      rw [toChar, UInt8.toNat_ofNat']
      omega
    have hm : (0 : ℤ) < 256 ^ n := Int.pow_pos (by decide)
    have hlow := Int.emod_nonneg (x / 256) hm.ne'
    have hhigh := Int.emod_lt_of_pos (x / 256) hm
    have hsplit :
        x = (x / 256 % 256 ^ n * 256 + x % 256) + 256 ^ n * 256 * (x / 256 / 256 ^ n) := by
      calc x = 256 * (x / 256) + x % 256 := (Int.mul_ediv_add_emod x 256).symm
        _ = 256 * (256 ^ n * (x / 256 / 256 ^ n) + x / 256 % 256 ^ n) + x % 256 := by
          rw [Int.mul_ediv_add_emod (x / 256) (256 ^ n)]
        _ = _ := by ring
    rw [beBytes, beNat_append_singleton, Int.natCast_add, Int.natCast_mul, ih, hbyte, pow_succ]
    have hmod := congrArg (· % (256 ^ n * 256)) hsplit
    simp only [Int.add_mul_emod_self_left] at hmod
    rw [hmod]
    exact (Int.emod_eq_of_lt (by omega) (by omega)).symm

theorem beNat_beBytes_of_lt {n m : ℕ} (h : m < 256 ^ n) : beNat (beBytes n m) = m := by
  have hmod := beNat_beBytes n m
  rw [Int.emod_eq_of_lt (Int.natCast_nonneg m) (by exact_mod_cast h)] at hmod
  exact_mod_cast hmod

theorem toChar_toNat (b : UInt8) : toChar b.toNat = b := by
  have hb := b.toNat_lt
  have hmod : ((b.toNat : ℤ) % 256).toNat = b.toNat := by omega
  rw [toChar, hmod, UInt8.ofNat_toNat]

theorem beBytes_beNat (bytes : List UInt8) : beBytes bytes.length (beNat bytes) = bytes := by
  induction bytes using List.reverseRecOn with
  | nil => rfl
  | append_singleton bytes b ih =>
    have hb := b.toNat_lt
    have hhigh : ((beNat bytes * 256 + b.toNat : ℕ) : ℤ) / 256 = beNat bytes := by omega
    have hlow : toChar (beNat bytes * 256 + b.toNat : ℕ) = b := by
      have hmod : ((beNat bytes * 256 + b.toNat : ℕ) : ℤ) % 256 = (b.toNat : ℤ) % 256 := by omega
      rw [toChar, hmod, ← toChar, toChar_toNat]
    rw [List.length_append, List.length_singleton, beBytes, beNat_append_singleton, hhigh, hlow, ih]

/-- Writing sees a number modulo the range of its bytes. -/
theorem beBytes_emod (n : ℕ) (x : ℤ) : beBytes n (x % 256 ^ n) = beBytes n x := by
  have h := beBytes_beNat (beBytes n x)
  rwa [beBytes_length, beNat_beBytes] at h

theorem take_succ_set {data : List UInt8} {k : ℕ} (h : k < data.length) (b : UInt8) :
    (data.set k b).take (k + 1) = data.take k ++ [b] := by
  rw [List.take_add_one, List.take_set_of_le (Nat.le_refl _), List.getElem?_set_self h]
  rfl

/-- Bytes that overwrite others, the first of them stored before the rest. -/
theorem overwrite_cons {data : List UInt8} {k : ℕ} (h : k < data.length) (b : UInt8)
    (bytes : List UInt8) :
    (data.set k b).take (k + 1) ++ bytes ++ (data.set k b).drop (k + 1 + bytes.length) =
      data.take k ++ b :: bytes ++ data.drop (k + (b :: bytes).length) := by
  have hbehind : k + (b :: bytes).length = k + 1 + bytes.length := by
    rw [List.length_cons]
    omega
  rw [take_succ_set h, List.drop_set_of_lt (by omega), hbehind, List.append_assoc (data.take k)]
  rfl

/-- A double that the server stores and forwards without computing with it, known by the bits
that `longToRawBits` and `doubleToRawBits` copy. -/
structure Double where
  rawBits : ℤ
deriving DecidableEq

def longToRawBits (x : ℤ) : Double := ⟨x⟩

def doubleToRawBits (x : Double) : ℤ := x.rawBits

/-- The exceptions the sources throw, with their texts. -/
inductive Exception
  | outOfRange (what : String)
  | runtimeError (what : String)
  | invalidArgument (what : String)
  | badCast
  | badAnyCast
deriving DecidableEq

def isSpace (c : UInt8) : Bool := c = 32 || (9 ≤ c && c ≤ 13)

def isDigit (c : UInt8) : Bool := 48 ≤ c && c ≤ 57

/-- `std::stoi`: white space, a sign, and as many digits as follow; the rest is ignored. -/
def stoi (s : CxxString) : Except Exception ℤ :=
  let text := s.dropWhile isSpace
  let negative := text.head? = some 45
  let digits := (if negative ∨ text.head? = some 43 then text.drop 1 else text).takeWhile isDigit
  let value : ℤ := digits.foldl (fun acc d => acc * 10 + (d.toNat - 48)) 0
  let result := if negative then -value else value
  if digits = [] then .error (.invalidArgument "invalid stoi argument")
  else if result < -2 ^ 31 ∨ 2 ^ 31 ≤ result then .error (.outOfRange "stoi argument out of range")
  else .ok result

theorem stoi_error {s : CxxString} {e : Exception} (h : stoi s = .error e) :
    e = .invalidArgument "invalid stoi argument" ∨
      e = .outOfRange "stoi argument out of range" := by
  unfold stoi at h
  extract_lets text negative digits value result at h
  by_cases hdigits : digits = []
  · rw [if_pos hdigits] at h
    exact .inl (Except.error.inj h).symm
  · rw [if_neg hdigits] at h
    by_cases hrange : result < -2 ^ 31 ∨ 2 ^ 31 ≤ result
    · rw [if_pos hrange] at h
      exact .inr (Except.error.inj h).symm
    · rw [if_neg hrange] at h
      cases h

def toLower (c : UInt8) : UInt8 := if 65 ≤ c && c ≤ 90 then c + 32 else c

/-- `boost::iequals`. -/
def iequals (a b : CxxString) : Bool := a.map toLower = b.map toLower

/-- Operations whose behaviour C++ leaves undefined. -/
inductive Undefined
  | nullPacket
  | nullUser
  | nullScript
  | nullPlan
  | readPastBlock
  | writePastEnd
  | overlappingMove
  | indexPastArray
deriving DecidableEq

/-- The ways a call ends without returning. -/
inductive Fault
  | thrown (e : Exception)
  | undefined (u : Undefined)
deriving DecidableEq

end Win64Server
