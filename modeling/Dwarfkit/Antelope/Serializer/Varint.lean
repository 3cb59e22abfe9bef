/-
# What the base-128 readers accept

`readVaruint32` of `serializer/decoder.hpp` refuses a sixth group and nothing
else: the fifth is shifted into place whole, and what goes past the 32nd bit is
lost.

* `reads_readVaruint32_groups` : the number read, modulo `2 ^ 32`;
* `lebNumber_lt_iff` : the groups that fit 32 bits;
* `varints_exact_iff` : the readers undo the writers, and read exactly unless
  the fifth group has more than four bits.
-/
import Dwarfkit.Antelope.Serializer.Coder

namespace Dwarfkit

open Wire

/-! ## The loop on any groups -/

/-- A group with its high bit set is that bit and the seven below it. -/
theorem group_of_le (b : UInt8) :
    128 ≤ b → b - 128 < 128 ∧ 128 + (b - 128) = b ∧ (b - 128).toNat = b.toNat % 128 :=
  forall_byte (P := fun b => 128 ≤ b → b - 128 < 128 ∧ 128 + (b - 128) = b ∧
    (b - 128).toNat = b.toNat % 128) (by decide +kernel) b

/-- A group put in at `bit` where the accumulator is still empty; what goes past
the 32nd bit is lost. -/
theorem or_group_mod (acc : UInt32) (bit : ℕ) (c : UInt8) (hbit : bit < 32)
    (hacc : acc.toNat < 2 ^ bit) :
    (acc ||| (c.toUInt32 <<< bit.toUInt32)).toNat =
      (acc.toNat + c.toNat * 2 ^ bit) % 2 ^ 32 := by
  have hb : (bit.toUInt32).toNat % 32 = bit := by
    simp only [Nat.toUInt32, UInt32.toNat_ofNat']
    omega
  have hpow : (2 : ℕ) ^ 32 = 2 ^ bit * 2 ^ (32 - bit) := by
    rw [← pow_add]
    congr 1
    omega
  have hmod : c.toNat * 2 ^ bit % 2 ^ 32 = c.toNat % 2 ^ (32 - bit) * 2 ^ bit := by
    rw [hpow, Nat.mul_comm, Nat.mul_mod_mul_left, Nat.mul_comm]
  have hsum : (acc ||| (c.toUInt32 <<< bit.toUInt32)).toNat =
      acc.toNat + c.toNat * 2 ^ bit % 2 ^ 32 := by
    rw [UInt32.toNat_or, UInt32.toNat_shiftLeft, hb, UInt8.toNat_toUInt32, Nat.shiftLeft_eq, hmod,
      Nat.or_comm, ← Nat.shiftLeft_eq, ← Nat.shiftLeft_add_eq_or_of_lt hacc, Nat.shiftLeft_eq,
      Nat.add_comm]
  have hlt := (acc ||| (c.toUInt32 <<< bit.toUInt32)).toNat_lt
  rw [hsum] at hlt ⊢
  omega

/-- The loop with `groups` groups left, seven bits each of the 35 in all, adds the
number of the groups it takes to its accumulator, modulo `2 ^ 32`. -/
theorem reads_readVaruint32From_groups {chunk : Bytes} (hchunk : IsLeb chunk) (groups bit : ℕ)
    (acc : UInt32) (hbit : bit + 7 * groups = 35) (hlen : chunk.length ≤ groups)
    (hacc : acc.toNat < 2 ^ bit) :
    ∃ r : UInt32, r.toNat = (acc.toNat + lebNumber chunk * 2 ^ bit) % 2 ^ 32 ∧
      Reads (readVaruint32From groups bit acc) chunk r := by
  induction hchunk generalizing groups bit acc with
  | @last b hb =>
    obtain ⟨g, rfl⟩ : ∃ g, groups = g + 1 := ⟨groups - 1, by simp at hlen; omega⟩
    have hn : lebNumber [b] = b.toNat := by
      have hb' : b.toNat < 128 := hb
      simp only [lebNumber]
      omega
    refine ⟨_, ?_, reads_last_group g bit acc b hb⟩
    rw [or_group_mod acc bit b (by omega) hacc, hn]
  | @more b bs hb hbs ih =>
    -- a further group follows, so this one is among the first four and nothing of it is lost
    have hpos : 0 < bs.length := List.length_pos_iff.mpr hbs.ne_nil
    obtain ⟨g, rfl⟩ : ∃ g, groups = g + 1 := ⟨groups - 1, by simp at hlen; omega⟩
    rw [List.length_cons] at hlen
    obtain ⟨hlow, hb', hn⟩ := group_of_le b hb
    have h128 : (b - 128).toNat * 2 ^ bit ≤ 127 * 2 ^ bit := Nat.mul_le_mul_right _ (by omega)
    have hpow : 2 ^ (bit + 7) ≤ 2 ^ 28 := Nat.pow_le_pow_right (by omega) (by omega)
    have hseven : 2 ^ (bit + 7) = 128 * 2 ^ bit := by
      rw [pow_add]
      ring
    have hsum := or_group acc bit (b - 128) (by omega) hacc (by omega)
    obtain ⟨r, hr, hreads⟩ := ih g (bit + 7) (acc ||| ((b - 128).toUInt32 <<< bit.toUInt32))
      (by omega) (by omega) (by omega)
    rw [← hb']
    refine ⟨r, ?_, reads_inner_group g bit acc _ hlow hreads⟩
    rw [hr, hsum, hb', hn, lebNumber, hseven]
    congr 1
    ring

/-- **What `readVaruint32` makes of at most five groups.** -/
theorem reads_readVaruint32_groups {chunk : Bytes} (hchunk : IsLeb chunk)
    (hlen : chunk.length ≤ 5) :
    ∃ r : UInt32, r.toNat = lebNumber chunk % 2 ^ 32 ∧ Reads readVaruint32 chunk r := by
  obtain ⟨r, hr, hreads⟩ := reads_readVaruint32From_groups hchunk 5 0 0 rfl hlen (by simp)
  exact ⟨r, by simpa using hr, hreads⟩

/-- What the loop takes is a whole integer of at most `groups` groups. -/
theorem readVaruint32From_takes {groups bit : ℕ} {acc v : UInt32} {bytes rest : Bytes}
    (h : (readVaruint32From groups bit acc).run bytes = .ok (v, rest)) :
    ∃ chunk, bytes = chunk ++ rest ∧ IsLeb chunk ∧ chunk.length ≤ groups := by
  induction groups generalizing bit acc bytes with
  | zero =>
    rcases bytes with - | ⟨b, bytes⟩ <;> cases h
  | succ groups ih =>
    rcases bytes with - | ⟨b, bytes⟩
    · cases h
    · rw [readVaruint32From, StateT.run_bind] at h
      simp only [readByte, StateT.run, ok_bind] at h
      by_cases hb : b < 128
      · obtain ⟨-, hhigh⟩ := last_group b hb
        rw [if_pos hhigh] at h
        cases h
        exact ⟨[b], rfl, .last hb, by simp⟩
      · obtain ⟨hlow, hb', -⟩ := group_of_le b (UInt8.not_lt.mp hb)
        obtain ⟨-, hhigh⟩ := inner_group (b - 128) hlow
        rw [hb'] at hhigh
        rw [if_neg hhigh] at h
        obtain ⟨chunk, rfl, hchunk, hlen⟩ := ih h
        exact ⟨b :: chunk, rfl, .more (UInt8.not_lt.mp hb) hchunk, by simpa using hlen⟩

/-- What `readVaruint32` accepts: the groups it takes, and their number modulo
`2 ^ 32`. -/
theorem readVaruint32_eq_ok {bytes rest : Bytes} {v : UInt32}
    (h : readVaruint32.run bytes = .ok (v, rest)) :
    ∃ chunk, bytes = chunk ++ rest ∧ IsLeb chunk ∧ chunk.length ≤ 5 ∧
      v.toNat = lebNumber chunk % 2 ^ 32 := by
  obtain ⟨chunk, rfl, hchunk, hlen⟩ := readVaruint32From_takes h
  obtain ⟨r, hr, hreads⟩ := reads_readVaruint32_groups hchunk hlen
  have hrest := hreads rest
  rw [h] at hrest
  cases hrest
  exact ⟨chunk, rfl, hchunk, hlen, hr⟩

/-! ## The groups that fit -/

/-- Five groups of which the last has more than the four bits left of 32. -/
def DropsBits : Bytes → Prop
  | b₀ :: b₁ :: b₂ :: b₃ :: b₄ :: _ =>
    128 ≤ b₀ ∧ 128 ≤ b₁ ∧ 128 ≤ b₂ ∧ 128 ≤ b₃ ∧ 16 ≤ b₄ ∧ b₄ < 128
  | _ => False

theorem dropsBits_iff {bytes : Bytes} :
    DropsBits bytes ↔ ∃ b₀ b₁ b₂ b₃ b₄ rest, bytes = b₀ :: b₁ :: b₂ :: b₃ :: b₄ :: rest ∧
      128 ≤ b₀ ∧ 128 ≤ b₁ ∧ 128 ≤ b₂ ∧ 128 ≤ b₃ ∧ 16 ≤ b₄ ∧ b₄ < 128 := by
  constructor
  · intro h
    rcases bytes with - | ⟨b₀, - | ⟨b₁, - | ⟨b₂, - | ⟨b₃, - | ⟨b₄, rest⟩⟩⟩⟩⟩
    all_goals first | exact h.elim | exact ⟨b₀, b₁, b₂, b₃, b₄, rest, rfl, h⟩
  · rintro ⟨b₀, b₁, b₂, b₃, b₄, rest, rfl, h⟩
    exact h

/-- What drops bits begins with an integer of five groups, past 32 bits. -/
theorem DropsBits.groups {bytes : Bytes} (h : DropsBits bytes) :
    ∃ chunk rest, bytes = chunk ++ rest ∧ IsLeb chunk ∧ chunk.length = 5 ∧
      2 ^ 32 ≤ lebNumber chunk := by
  obtain ⟨b₀, b₁, b₂, b₃, b₄, rest, rfl, h₀, h₁, h₂, h₃, hlow, h₄⟩ := dropsBits_iff.mp h
  have hlow' : 16 ≤ b₄.toNat := hlow
  have h₄' : b₄.toNat < 128 := h₄
  refine ⟨[b₀, b₁, b₂, b₃, b₄], rest, rfl, .more h₀ (.more h₁ (.more h₂ (.more h₃ (.last h₄)))),
    rfl, ?_⟩
  simp only [lebNumber]
  omega

/-- Fewer than five groups fit 32 bits. -/
theorem lebNumber_lt_pow (chunk : Bytes) : lebNumber chunk < 128 ^ chunk.length := by
  induction chunk with
  | nil => simp [lebNumber]
  | cons b bs ih =>
    rw [lebNumber, List.length_cons, pow_succ']
    omega

/-- **At most five groups fit 32 bits unless they drop bits.** -/
theorem lebNumber_lt_iff {chunk : Bytes} (hchunk : IsLeb chunk) (hlen : chunk.length ≤ 5)
    (rest : Bytes) : lebNumber chunk < 2 ^ 32 ↔ ¬ DropsBits (chunk ++ rest) := by
  constructor
  · intro hfit hdrops
    obtain ⟨chunk', rest', heq, hchunk', -, hlarge⟩ := hdrops.groups
    rw [hchunk.prefix_free hchunk' heq] at hfit
    omega
  · intro hnot
    by_contra hlarge
    have hpow := lebNumber_lt_pow chunk
    have hfive : chunk.length = 5 := by
      by_contra hne
      have hle : (128 : ℕ) ^ chunk.length ≤ 128 ^ 4 := Nat.pow_le_pow_right (by omega) (by omega)
      omega
    obtain ⟨b₀, b₁, b₂, b₃, b₄, rfl⟩ : ∃ b₀ b₁ b₂ b₃ b₄, chunk = [b₀, b₁, b₂, b₃, b₄] := by
      rcases chunk with - | ⟨b₀, - | ⟨b₁, - | ⟨b₂, - | ⟨b₃, - | ⟨b₄, - | ⟨b₅, bs⟩⟩⟩⟩⟩⟩
      all_goals simp at hfive
      exact ⟨b₀, b₁, b₂, b₃, b₄, rfl⟩
    rcases hchunk with - | ⟨h₀, - | ⟨h₁, - | ⟨h₂, - | ⟨h₃, h₄ | ⟨-, hnil⟩⟩⟩⟩⟩
    · have h₄' : b₄.toNat < 128 := h₄
      simp only [lebNumber] at hlarge
      have hlow : 16 ≤ b₄.toNat := by omega
      exact hnot ⟨h₀, h₁, h₂, h₃, hlow, h₄⟩
    · cases hnil

/-! ## The readers -/

/-- The integer a zig-zag number stands for. -/
def unzigzag (n : ℕ) : ℤ := if n % 2 = 0 then n / 2 else -((n + 1) / 2)

theorem and_one_iff (w : UInt32) : w &&& 1 = 1 ↔ w.toNat % 2 = 1 := by
  rw [← UInt32.toNat_inj, UInt32.toNat_and]
  show w.toNat &&& 1 = 1 ↔ _
  rw [Nat.and_one_is_mod]

theorem toNat_shiftRight_one (w : UInt32) : (w >>> 1).toNat = w.toNat / 2 := by
  rw [UInt32.toNat_shiftRight]
  show _ >>> 1 = _
  rw [Nat.shiftRight_eq_div_pow, pow_one]

/-- Setting the clear top bit. -/
theorem toNat_or_top (w : UInt32) (h : w.toNat < 2 ^ 31) :
    (w ||| 0x80000000).toNat = w.toNat + 2 ^ 31 := by
  rw [UInt32.toNat_or]
  show _ ||| 2 ^ 31 = _
  have hor := Nat.shiftLeft_add_eq_or_of_lt h 1
  rw [Nat.shiftLeft_eq, one_mul] at hor
  rw [Nat.or_comm, ← hor, Nat.add_comm]

/-- Two's complement. -/
theorem toInt_toInt32 (w : UInt32) :
    w.toInt32.toInt = if w.toNat < 2 ^ 31 then (w.toNat : ℤ) else w.toNat - 2 ^ 32 := by
  show w.toBitVec.toInt = _
  rw [BitVec.toInt_eq_toNat_cond, UInt32.toNat_toBitVec]
  split <;> split <;> first | rfl | omega

/-- What `readVarint32` makes of the number it reads. -/
theorem toInt_unzigzag (v : UInt32) :
    (if v &&& 1 = 1 then ((~~~v >>> 1) ||| 0x80000000).toInt32 else (v >>> 1).toInt32).toInt =
      unzigzag v.toNat := by
  have hv := v.toNat_lt
  unfold unzigzag
  by_cases hodd : v.toNat % 2 = 1
  · have hnot : (~~~v).toNat = 2 ^ 32 - 1 - v.toNat := by
      rw [UInt32.toNat_not]
      rfl
    have hhalf : (~~~v >>> 1).toNat = (2 ^ 32 - 1 - v.toNat) / 2 := by
      rw [toNat_shiftRight_one, hnot]
    have htop := toNat_or_top (~~~v >>> 1) (by omega)
    rw [if_pos ((and_one_iff v).mpr hodd), if_neg (by omega), toInt_toInt32, htop, hhalf,
      if_neg (by omega)]
    omega
  · have hhalf := toNat_shiftRight_one v
    rw [if_neg (fun h => hodd ((and_one_iff v).mp h)), if_pos (by omega), toInt_toInt32, hhalf,
      if_pos (by omega)]
    omega

/-- `readVarint32` undoes the zig-zag of what `readVaruint32` reads. -/
theorem readVarint32_eq :
    readVarint32 = (fun v : UInt32 => if v &&& 1 = 1 then
      ((~~~v >>> 1) ||| 0x80000000).toInt32 else (v >>> 1).toInt32) <$> readVaruint32 := by
  rw [map_eq_pure_bind, readVarint32]
  congr 1
  funext v
  split <;> rfl

/-- What `readVarint32` accepts, `readVaruint32` accepts as its zig-zag. -/
theorem readVarint32_eq_ok {bytes rest : Bytes} {i : Int32}
    (h : readVarint32.run bytes = .ok (i, rest)) :
    ∃ v : UInt32, readVaruint32.run bytes = .ok (v, rest) ∧ i.toInt = unzigzag v.toNat := by
  rw [readVarint32_eq, StateT.run_map] at h
  rcases hv : readVaruint32.run bytes with e | ⟨v, rest'⟩
  · rw [hv] at h
    cases h
  · rw [hv] at h
    cases h
    exact ⟨v, rfl, toInt_unzigzag v⟩

/-- The readers are exact on a byte string: a number accepted is that of the very
groups taken, and groups for a number of more than 32 bits are refused. -/
def ReadsExactly (bytes : Bytes) : Prop :=
  (∀ v rest, readVaruint32.run bytes = .ok (v, rest) →
    ∃ chunk, bytes = chunk ++ rest ∧ IsLeb chunk ∧ v.toNat = lebNumber chunk) ∧
  (∀ i rest, readVarint32.run bytes = .ok (i, rest) →
    ∃ chunk, bytes = chunk ++ rest ∧ IsLeb chunk ∧ i.toInt = unzigzag (lebNumber chunk)) ∧
  (∀ chunk rest, bytes = chunk ++ rest → IsLeb chunk → 2 ^ 32 ≤ lebNumber chunk →
    ∀ p, readVaruint32.run bytes ≠ .ok p)

/-- What the readers owe every value, every suffix and every byte string: they
take back what was written, five bytes at most, and are exact on what they
accept. -/
def VarintsExact (v : UInt32) (i : Int32) (s bytes : Bytes) : Prop :=
  readVaruint32.run (writeVaruint32 v ++ s) = .ok (v, s) ∧ (writeVaruint32 v).length ≤ 5 ∧
  readVarint32.run (writeVarint32 i ++ s) = .ok (i, s) ∧ (writeVarint32 i).length ≤ 5 ∧
  ReadsExactly bytes

theorem ReadsExactly.of_not_dropsBits {bytes : Bytes} (h : ¬ DropsBits bytes) :
    ReadsExactly bytes := by
  have hread : ∀ v rest, readVaruint32.run bytes = .ok (v, rest) →
      ∃ chunk, bytes = chunk ++ rest ∧ IsLeb chunk ∧ v.toNat = lebNumber chunk := by
    intro v rest hrun
    obtain ⟨chunk, rfl, hchunk, hlen, hv⟩ := readVaruint32_eq_ok hrun
    have hfit := (lebNumber_lt_iff hchunk hlen rest).mpr h
    exact ⟨chunk, rfl, hchunk, by rw [hv, Nat.mod_eq_of_lt hfit]⟩
  refine ⟨hread, ?_, ?_⟩
  · intro i rest hrun
    obtain ⟨v, hv, hi⟩ := readVarint32_eq_ok hrun
    obtain ⟨chunk, heq, hchunk, hn⟩ := hread v rest hv
    exact ⟨chunk, heq, hchunk, by rw [hi, hn]⟩
  · rintro chunk rest heq hchunk hlarge ⟨v, rest'⟩ hrun
    obtain ⟨chunk', heq', hchunk', hn⟩ := hread v rest' hrun
    have hlt := v.toNat_lt
    rw [hchunk.prefix_free hchunk' (heq.symm.trans heq')] at hlarge
    omega

/-- **The integers are read back, and what is read is exact, for all byte strings
but those whose fifth group has more than four bits.** -/
theorem varints_exact_iff (v : UInt32) (i : Int32) (s bytes : Bytes) :
    VarintsExact v i s bytes ↔ ¬ DropsBits bytes := by
  constructor
  · rintro ⟨-, -, -, -, -, -, hrefused⟩ hdrops
    obtain ⟨chunk, rest, heq, hchunk, hlen, hlarge⟩ := hdrops.groups
    obtain ⟨r, -, hreads⟩ := reads_readVaruint32_groups hchunk hlen.le
    refine hrefused chunk rest heq hchunk hlarge (r, rest) ?_
    rw [heq]
    exact hreads rest
  · intro h
    exact ⟨reads_readVaruint32 v s, length_lebBytes_le_groups 4 _, reads_readVarint32 i s,
      length_lebBytes_le_groups 4 _, .of_not_dropsBits h⟩

/-- Five groups that stand for `2 ^ 32` are read as zero. -/
theorem not_varintsExact_overflow :
    readVaruint32.run [0x80, 0x80, 0x80, 0x80, 0x10] = .ok (0, []) ∧
      ¬ VarintsExact 0 0 [] [0x80, 0x80, 0x80, 0x80, 0x10] := by
  refine ⟨rfl, fun h => ?_⟩
  obtain ⟨-, -, -, -, -, -, hrefused⟩ := h
  exact hrefused [0x80, 0x80, 0x80, 0x80, 0x10] [] rfl
    (.more (by decide) (.more (by decide) (.more (by decide) (.more (by decide)
      (.last (by decide)))))) (by decide) _ rfl

end Dwarfkit
