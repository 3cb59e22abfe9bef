/-
# Base58

`Base58::decode` and `encode` of `antelope/base58.cpp` carry digit by digit
through a growing buffer.  Here the buffers are the digits of the value read so
far, so the two are the conversions between numerals in bases 58 and 256, with
their leading zeros kept (`Numeral.convert`).

* `decode_eq`, `encode_eq` : the conversions;
* `decode_fixed_iff` : when a decoding of a fixed size succeeds;
* `base58_bijection` : what is encoded is decoded, and the other way round.
-/
import Dwarfkit.Antelope.Chain.Keys
import Dwarfkit.Library.Numeral

namespace Dwarfkit

namespace Base58

open Numeral Wire

/-! ## The checksum of two SHA-256 rounds -/

/-- `dsha256Checksum`. -/
def dsha256Checksum (crypto : Crypto) (data : Bytes) : Bytes :=
  (crypto.sha256 (crypto.sha256 data).array).array.take 4

/-- `decodeCheck`. -/
def decodeCheck (crypto : Crypto) (encoded : Str) (size : Option ℕ) : Result Bytes := do
  let decoded ← decode encoded (size.map (· + 4))
  if decoded.length < 4 then checksumMismatch [] decoded [] "double_sha256"
  else
    let data := decoded.take (decoded.length - 4)
    let expected := decoded.drop (decoded.length - 4)
    let actual := dsha256Checksum crypto data
    if expected ≠ actual then checksumMismatch actual expected data "double_sha256"
    else return data

/-- `encodeCheck`. -/
def encodeCheck (crypto : Crypto) (data : Bytes) : Str :=
  encode (data ++ dsha256Checksum crypto data)

/-! ## Characters and bytes as digits -/

/-- Every character is one of the 58. -/
def InAlphabet (s : Str) : Prop := ∀ c ∈ s, c ∈ chars

/-- The digits a string is written in. -/
def digitsOf (s : Str) : List ℕ := s.map (fun c => chars.idxOf c)

/-- The digits of bytes. -/
def bytesOf (d : Bytes) : List ℕ := d.map UInt8.toNat

/-- The character of a digit. -/
def charOf (d : ℕ) : UInt8 := chars.getD d 0

theorem charMap_of_mem {c : UInt8} (h : c ∈ chars) : charMap c = some (chars.idxOf c) := if_pos h

theorem idxOf_lt {c : UInt8} (h : c ∈ chars) : chars.idxOf c < 58 := List.idxOf_lt_length_of_mem h

theorem charOf_idxOf {c : UInt8} (h : c ∈ chars) : charOf (chars.idxOf c) = c := by
  have hlt : chars.idxOf c < chars.length := List.idxOf_lt_length_of_mem h
  rw [charOf, List.getD_eq_getElem _ _ hlt, List.getElem_idxOf]

theorem charOf_mem {d : ℕ} (h : d < 58) : charOf d ∈ chars := by
  have hlt : d < chars.length := h
  rw [charOf, List.getD_eq_getElem _ _ hlt]
  exact List.getElem_mem _

/-- No character stands twice. -/
theorem idxOf_charOf {d : ℕ} (h : d < 58) : chars.idxOf (charOf d) = d := by
  have hlt : d < chars.length := h
  have hnodup : chars.Nodup := by decide
  rw [charOf, List.getD_eq_getElem _ _ hlt, hnodup.idxOf_getElem]

/-- The digit zero is the character `1`. -/
theorem idxOf_eq_zero (c : UInt8) : chars.idxOf c = 0 ↔ c = 49 := by
  have hchars : chars = 49 :: chars.tail := by decide
  rw [hchars, List.idxOf_cons]
  by_cases hc : c = 49
  · simp [hc]
  · have hbeq : ((49 : UInt8) == c) = false := beq_false_of_ne (Ne.symm hc)
    simp [hbeq, hc]

theorem digitsOf_concat (s : Str) (c : UInt8) :
    digitsOf (s ++ [c]) = digitsOf s ++ [chars.idxOf c] := List.map_append

theorem bytesOf_concat (d : Bytes) (b : UInt8) : bytesOf (d ++ [b]) = bytesOf d ++ [b.toNat] :=
  List.map_append

theorem digitsOf_lt {s : Str} (h : InAlphabet s) : ∀ d ∈ digitsOf s, d < 58 := by
  intro d hd
  obtain ⟨c, hc, rfl⟩ := List.mem_map.mp hd
  exact idxOf_lt (h c hc)

theorem bytesOf_lt (d : Bytes) : ∀ b ∈ bytesOf d, b < 256 := by
  intro b hb
  obtain ⟨c, -, rfl⟩ := List.mem_map.mp hb
  exact c.toNat_lt

theorem map_charOf_digitsOf {s : Str} (h : InAlphabet s) : (digitsOf s).map charOf = s := by
  exact map_map_cancel (fun c hc => charOf_idxOf (h c hc))

theorem digitsOf_map_charOf {ds : List ℕ} (h : ∀ d ∈ ds, d < 58) :
    digitsOf (ds.map charOf) = ds := by
  exact map_map_cancel (fun d hd => idxOf_charOf (h d hd))

theorem inAlphabet_map_charOf {ds : List ℕ} (h : ∀ d ∈ ds, d < 58) : InAlphabet (ds.map charOf) := by
  intro c hc
  obtain ⟨d, hd, rfl⟩ := List.mem_map.mp hc
  exact charOf_mem (h d hd)

theorem map_toUInt8_bytesOf (d : Bytes) : (bytesOf d).map Nat.toUInt8 = d := by
  exact map_map_cancel (fun b _ => UInt8.ofNat_toNat)

theorem bytesOf_map_toUInt8 {ds : List ℕ} (h : ∀ d ∈ ds, d < 256) :
    bytesOf (ds.map Nat.toUInt8) = ds := by
  apply map_map_cancel
  intro d hd
  exact UInt8.toNat_ofNat_of_lt' (h d hd)

theorem bytesOf_injective : Function.Injective bytesOf := by
  intro d e h
  rw [← map_toUInt8_bytesOf d, h, map_toUInt8_bytesOf]

/-- The leading zeros of a string are its leading `1`s. -/
theorem leading_digitsOf (s : Str) : leading (digitsOf s) = (s.takeWhile (· = 49)).length := by
  rw [leading, digitsOf, List.takeWhile_map, List.length_map]
  congr 2
  funext c
  simp only [Function.comp_apply, idxOf_eq_zero]

theorem leading_bytesOf (d : Bytes) : leading (bytesOf d) = (d.takeWhile (· = 0)).length := by
  rw [leading, bytesOf, List.takeWhile_map, List.length_map]
  congr 2
  funext b
  have hb : b.toNat = 0 ↔ b = 0 := by
    rw [← UInt8.toNat_inj]
    rfl
  simp only [Function.comp_apply, hb]

/-! ## One step of the carry loop -/

/-- What the carry loop computes. -/
theorem mulAdd_spec {mult base : ℕ} (hbase : 0 < base) (ds : List ℕ) (carry : ℕ) :
    (mulAdd mult base ds carry).1.length = ds.length ∧
      (∀ d ∈ (mulAdd mult base ds carry).1, d < base) ∧
      Nat.ofDigits base (mulAdd mult base ds carry).1 +
          base ^ ds.length * (mulAdd mult base ds carry).2 =
        mult * Nat.ofDigits base ds + carry := by
  induction ds generalizing carry with
  | nil => simp [mulAdd]
  | cons d ds ih =>
    obtain ⟨hlen, hlt, hvalue⟩ := ih ((d * mult + carry) / base)
    simp only [mulAdd]
    refine ⟨by rw [List.length_cons, List.length_cons, hlen], ?_, ?_⟩
    · exact List.forall_mem_cons.mpr ⟨Nat.mod_lt _ hbase, hlt⟩
    · have hsplit := Nat.mod_add_div (d * mult + carry) base
      rw [Nat.ofDigits_cons, Nat.ofDigits_cons, List.length_cons, pow_succ]
      calc _ = (d * mult + carry) % base + base * (Nat.ofDigits base
                (mulAdd mult base ds ((d * mult + carry) / base)).1 + base ^ ds.length *
                (mulAdd mult base ds ((d * mult + carry) / base)).2) := by ring
        _ = (d * mult + carry) % base + base * (mult * Nat.ofDigits base ds +
              (d * mult + carry) / base) := by rw [hvalue]
        _ = mult * (base * Nat.ofDigits base ds) + ((d * mult + carry) % base + base *
              ((d * mult + carry) / base)) := by ring
        _ = _ := by rw [hsplit]; ring

/-- The carry that goes out is one that could have come in. -/
theorem mulAdd_carry_lt {mult base : ℕ} {ds : List ℕ} (hds : ∀ d ∈ ds, d < base) {carry : ℕ}
    (hcarry : carry < mult) : (mulAdd mult base ds carry).2 < mult := by
  induction ds generalizing carry with
  | nil => exact hcarry
  | cons d ds ih =>
    have hd : d < base := hds d List.mem_cons_self
    simp only [mulAdd]
    apply ih (fun e he => hds e (List.mem_cons_of_mem _ he))
    apply Nat.div_lt_of_lt_mul
    calc d * mult + carry < d * mult + mult := by omega
      _ = (d + 1) * mult := by ring
      _ ≤ base * mult := Nat.mul_le_mul_right _ hd

/-- The carry loop on the digits of `n`, its last carry written out. -/
theorem mulAdd_digits {mult base : ℕ} (hmult : 0 < mult) (hbase : 1 < base) (n carry : ℕ) :
    (mulAdd mult base (Nat.digits base n) carry).1 ++
        Nat.digits base (mulAdd mult base (Nat.digits base n) carry).2 =
      Nat.digits base (mult * n + carry) := by
  obtain ⟨hlen, hlt, hvalue⟩ := @mulAdd_spec mult base (by omega)
    (Nat.digits base n) carry
  rw [Nat.ofDigits_digits] at hvalue
  apply carry_digits (n := n) hbase _ hlen hlt
  · rw [hlen, hvalue]
  · calc n = 1 * n := (one_mul n).symm
      _ ≤ mult * n := Nat.mul_le_mul_right _ hmult
      _ ≤ mult * n + carry := Nat.le_add_right _ _

theorem mulAdd_digits_carry_lt {mult base : ℕ} (hbase : 1 < base) (n : ℕ) {carry : ℕ}
    (hcarry : carry < mult) : (mulAdd mult base (Nat.digits base n) carry).2 < mult :=
  mulAdd_carry_lt (fun _ hd => Nat.digits_lt_base hbase hd) hcarry

/-! ## Encoding -/

/-- A carry of `encode` is below 256, and its digits are written out. -/
theorem carryDigits_eq {carry : ℕ} (h : carry < 256) :
    carryDigits carry = Nat.digits 58 carry := by
  unfold carryDigits
  by_cases h₀ : carry = 0
  · rw [if_pos h₀, h₀, Nat.digits_zero]
  rw [if_neg h₀]
  by_cases h₁ : carry < 58
  · rw [if_pos h₁, Nat.digits_of_lt 58 carry h₀ h₁]
  · rw [if_neg h₁, Nat.digits_def' (by omega) (by omega),
      Nat.digits_of_lt 58 (carry / 58) (by omega) (by omega)]

/-- The buffer of `encode` holds the digits of the value read so far. -/
theorem encode_fold (data : Bytes) :
    data.foldl (fun result byte =>
      let (ds, carry) := mulAdd 256 58 result byte.toNat
      ds ++ carryDigits carry) [] = Nat.digits 58 (value 256 (bytesOf data)) := by
  induction data using List.reverseRecOn with
  | nil => simp [bytesOf]
  | append_singleton data byte ih =>
    rw [List.foldl_append, ih]
    show (mulAdd 256 58 _ byte.toNat).1 ++ carryDigits (mulAdd 256 58 _ byte.toNat).2 = _
    rw [carryDigits_eq (mulAdd_digits_carry_lt (by omega) _ byte.toNat_lt),
      mulAdd_digits (by omega) (by omega), bytesOf_concat, value_concat]

/-- **`encode` converts from base 256 to base 58.** -/
theorem encode_eq (data : Bytes) :
    encode data = (convert 256 58 (bytesOf data)).map charOf := by
  have hones : ((data.takeWhile (· = 0)).map (fun _ => (49 : UInt8))).reverse =
      (List.replicate (leading (bytesOf data)) 0).map charOf := by
    rw [leading_bytesOf, List.map_const', List.reverse_replicate, List.map_replicate]
    rfl
  unfold encode
  simp only [encode_fold]
  rw [List.reverse_append, hones, ← List.map_reverse, convert, List.map_append]
  rfl

theorem inAlphabet_encode (data : Bytes) : InAlphabet (encode data) := by
  rw [encode_eq]
  exact inAlphabet_map_charOf (convert_lt (by omega) _)

theorem digitsOf_encode (data : Bytes) : digitsOf (encode data) = convert 256 58 (bytesOf data) := by
  rw [encode_eq, digitsOf_map_charOf (convert_lt (by omega) _)]

/-! ## Decoding -/

/-- A character of the alphabet, without a fixed size. -/
theorem decodeStep_digits {n : ℕ} {c : UInt8} (h : c ∈ chars) :
    decodeStep false (Nat.digits 256 n) c =
      .ok (Nat.digits 256 (58 * n + chars.idxOf c)) := by
  have hcarry : (mulAdd 58 256 (Nat.digits 256 n) (chars.idxOf c)).2 < 58 :=
    mulAdd_digits_carry_lt (by omega) n (idxOf_lt h)
  have hdigits : (mulAdd 58 256 (Nat.digits 256 n) (chars.idxOf c)).1 ++
      Nat.digits 256 (mulAdd 58 256 (Nat.digits 256 n) (chars.idxOf c)).2 =
        Nat.digits 256 (58 * n + chars.idxOf c) :=
    mulAdd_digits (by omega) (by omega) n (chars.idxOf c)
  rw [digits_of_lt (lt_trans hcarry (by omega))] at hdigits
  rw [decodeStep, charMap_of_mem h]
  simp only
  by_cases hzero : (mulAdd 58 256 (Nat.digits 256 n) (chars.idxOf c)).2 = 0
  · rw [if_pos hzero, List.append_nil] at hdigits
    rw [if_pos hzero, hdigits]
  · rw [if_neg hzero] at hdigits
    rw [if_neg hzero, if_neg (by simp), Nat.mod_eq_of_lt (by omega), hdigits]

/-- The buffer of `decodeVar` holds the digits of the value read so far. -/
theorem decode_fold {s : Str} (h : InAlphabet s) :
    s.foldlM (decodeStep false) [] = .ok (Nat.digits 256 (value 58 (digitsOf s))) := by
  induction s using List.reverseRecOn with
  | nil => simp [digitsOf]; rfl
  | append_singleton s c ih =>
    have hs : InAlphabet s := fun d hd => h d (List.mem_append_left _ hd)
    have hc : c ∈ chars := h c (by simp)
    rw [List.foldlM_append, ih hs, ok_bind, List.foldlM_cons, decodeStep_digits hc, ok_bind,
      digitsOf_concat, value_concat]
    rfl

/-- **`decodeVar` converts from base 58 to base 256.** -/
theorem decode_eq {s : Str} (h : InAlphabet s) :
    decode s none = .ok ((convert 58 256 (digitsOf s)).map Nat.toUInt8) := by
  have hzeros : ((s.takeWhile (· = 49)).map (fun _ => (0 : ℕ))).reverse =
      List.replicate (leading (digitsOf s)) 0 := by
    rw [leading_digitsOf, List.map_const', List.reverse_replicate]
  rw [decode]
  simp only [decode_fold h, ok_bind]
  rw [List.reverse_append, hzeros, convert]
  rfl

theorem bytesOf_decode {s : Str} (h : InAlphabet s) {d : Bytes} (hd : decode s none = .ok d) :
    bytesOf d = convert 58 256 (digitsOf s) := by
  rw [decode_eq h] at hd
  cases hd
  exact bytesOf_map_toUInt8 (convert_lt (by omega) _)

/-- **What is encoded is decoded.** -/
theorem decode_var_encode (d : Bytes) : decode (encode d) none = .ok d := by
  rw [decode_eq (inAlphabet_encode d), digitsOf_encode,
    convert_convert (by omega) (bytesOf_lt d), map_toUInt8_bytesOf]

/-- **What is decoded is encoded**, its leading `1`s being leading zeros. -/
theorem encode_decode {s : Str} (h : InAlphabet s) :
    ∃ d, decode s none = .ok d ∧ encode d = s ∧
      (d.takeWhile (· = 0)).length = (s.takeWhile (· = 49)).length := by
  refine ⟨_, decode_eq h, ?_, ?_⟩
  · rw [encode_eq, bytesOf_map_toUInt8 (convert_lt (by omega) _),
      convert_convert (by omega) (digitsOf_lt h), map_charOf_digitsOf h]
  · rw [← leading_bytesOf, bytesOf_map_toUInt8 (convert_lt (by omega) _), leading_convert,
      leading_digitsOf]

/-! ## Decoding at a fixed size -/

/-- A buffer of `n` bytes that holds `v`, lowest byte first. -/
structure Holds (n v : ℕ) (ds : List ℕ) : Prop where
  length : ds.length = n
  lt : ∀ d ∈ ds, d < 256
  value : Nat.ofDigits 256 ds = v

/-- The number a string stands for. -/
def valueOf (s : Str) : ℕ := value 58 (digitsOf s)

/-- The number bytes stand for, the highest first. -/
def bytesValue (d : Bytes) : ℕ := value 256 (bytesOf d)

theorem valueOf_concat (s : Str) (c : UInt8) :
    valueOf (s ++ [c]) = 58 * valueOf s + chars.idxOf c := by
  rw [valueOf, digitsOf_concat, value_concat, valueOf]

/-- A step that succeeds has read a character of the alphabet into the buffer. -/
theorem decodeStep_fixed_eq_ok {n v : ℕ} {ds ds' : List ℕ} {c : UInt8} (h : Holds n v ds)
    (hstep : decodeStep true ds c = .ok ds') :
    c ∈ chars ∧ Holds n (58 * v + chars.idxOf c) ds' := by
  have hc : c ∈ chars := by
    by_contra hc
    rw [decodeStep, charMap, if_neg hc] at hstep
    cases hstep
  obtain ⟨hlen, hlt, hvalue⟩ := @mulAdd_spec 58 256 (by omega) ds (chars.idxOf c)
  rw [decodeStep, charMap_of_mem hc] at hstep
  simp only at hstep
  by_cases hzero : (mulAdd 58 256 ds (chars.idxOf c)).2 = 0
  · rw [if_pos hzero] at hstep
    cases hstep
    rw [hzero, mul_zero, add_zero, h.value] at hvalue
    exact ⟨hc, hlen.trans h.length, hlt, hvalue⟩
  · rw [if_neg hzero, if_pos trivial] at hstep
    cases hstep

/-- A step succeeds when the number still fits. -/
theorem decodeStep_fixed_ok {n v : ℕ} {ds : List ℕ} {c : UInt8} (h : Holds n v ds)
    (hc : c ∈ chars) (hfit : 58 * v + chars.idxOf c < 256 ^ n) :
    ∃ ds', decodeStep true ds c = .ok ds' := by
  obtain ⟨-, -, hvalue⟩ := @mulAdd_spec 58 256 (by omega) ds (chars.idxOf c)
  rw [h.length, h.value] at hvalue
  have hzero : (mulAdd 58 256 ds (chars.idxOf c)).2 = 0 := by
    by_contra hne
    have hle : 256 ^ n * 1 ≤ 256 ^ n * (mulAdd 58 256 ds (chars.idxOf c)).2 :=
      Nat.mul_le_mul_left _ (Nat.pos_of_ne_zero hne)
    omega
  rw [decodeStep, charMap_of_mem hc]
  simp only [hzero]
  exact ⟨_, rfl⟩

theorem holds_zeros (n : ℕ) : Holds n 0 (List.replicate n 0) := by
  refine ⟨List.length_replicate, ?_, ?_⟩
  · intro d hd
    rw [List.eq_of_mem_replicate hd]
    omega
  · simp

/-- The whole loop, when it succeeds. -/
theorem decode_fixed_fold_eq_ok {n : ℕ} {s : Str} {ds : List ℕ}
    (h : s.foldlM (decodeStep true) (List.replicate n 0) = .ok ds) :
    InAlphabet s ∧ Holds n (valueOf s) ds := by
  induction s using List.reverseRecOn generalizing ds with
  | nil =>
    cases h
    exact ⟨by simp [InAlphabet], holds_zeros n⟩
  | append_singleton s c ih =>
    rw [List.foldlM_append] at h
    obtain ⟨mid, hmid, hstep⟩ := bind_eq_ok.mp h
    obtain ⟨hs, hholds⟩ := ih hmid
    rw [List.foldlM_cons] at hstep
    obtain ⟨ds', hds', hpure⟩ := bind_eq_ok.mp hstep
    cases hpure
    obtain ⟨hc, hholds'⟩ := decodeStep_fixed_eq_ok hholds hds'
    rw [valueOf_concat]
    refine ⟨?_, hholds'⟩
    intro d hd
    rcases List.mem_append.mp hd with hd | hd
    · exact hs d hd
    · rw [List.mem_singleton.mp hd]
      exact hc

/-- The whole loop succeeds when the number fits: what was read before is smaller. -/
theorem decode_fixed_fold_ok {n : ℕ} {s : Str} (h : InAlphabet s) (hfit : valueOf s < 256 ^ n) :
    ∃ ds, s.foldlM (decodeStep true) (List.replicate n 0) = .ok ds := by
  induction s using List.reverseRecOn with
  | nil => exact ⟨_, rfl⟩
  | append_singleton s c ih =>
    rw [valueOf_concat] at hfit
    obtain ⟨mid, hmid⟩ := ih (fun d hd => h d (List.mem_append_left _ hd)) (by omega)
    obtain ⟨-, hholds⟩ := decode_fixed_fold_eq_ok hmid
    obtain ⟨ds, hds⟩ := decodeStep_fixed_ok hholds (h c (by simp)) hfit
    refine ⟨ds, ?_⟩
    rw [List.foldlM_append, hmid, ok_bind, List.foldlM_cons, hds, ok_bind]
    rfl

/-- What a decoding of a fixed size gives: the value of the text in so many bytes. -/
theorem decode_fixed_eq_ok {n : ℕ} {s : Str} {d : Bytes} (h : decode s (some n) = .ok d) :
    InAlphabet s ∧ d.length = n ∧ bytesValue d = valueOf s := by
  rw [decode] at h
  obtain ⟨ds, hds, hpure⟩ := bind_eq_ok.mp h
  cases hpure
  obtain ⟨hs, hholds⟩ := decode_fixed_fold_eq_ok hds
  have hlt : ∀ e ∈ ds.reverse, e < 256 := fun e he => hholds.lt e (List.mem_reverse.mp he)
  refine ⟨hs, ?_, ?_⟩
  · rw [List.length_map, List.length_reverse, hholds.length]
  · rw [bytesValue, bytesOf_map_toUInt8 hlt, value, List.reverse_reverse, hholds.value]

/-- **When a decoding of a fixed size succeeds.** -/
theorem decode_fixed_iff (n : ℕ) (s : Str) :
    (∃ d, decode s (some n) = .ok d) ↔ InAlphabet s ∧ valueOf s < 256 ^ n := by
  constructor
  · rintro ⟨d, hd⟩
    obtain ⟨hs, hlen, hvalue⟩ := decode_fixed_eq_ok hd
    refine ⟨hs, ?_⟩
    have hlt := value_lt (b := 256) (by omega) (bytesOf_lt d)
    rwa [bytesOf, List.length_map, hlen, ← bytesOf, ← bytesValue, hvalue] at hlt
  · rintro ⟨hs, hfit⟩
    obtain ⟨ds, hds⟩ := decode_fixed_fold_ok hs hfit
    rw [decode, hds]
    exact ⟨_, rfl⟩

/-- What is encoded is decoded at its own size. -/
theorem decode_own_size_encode (d : Bytes) : decode (encode d) (some d.length) = .ok d := by
  have hvalue : valueOf (encode d) = bytesValue d := by
    rw [valueOf, digitsOf_encode, value_convert, bytesValue]
  have hlen : (bytesOf d).length = d.length := List.length_map _
  have hfit : valueOf (encode d) < 256 ^ d.length := by
    rw [hvalue, ← hlen]
    exact value_lt (by omega) (bytesOf_lt d)
  obtain ⟨e, he⟩ := (decode_fixed_iff d.length (encode d)).mpr ⟨inAlphabet_encode d, hfit⟩
  obtain ⟨-, hlen', hvalue'⟩ := decode_fixed_eq_ok he
  have heq : bytesOf e = bytesOf d := by
    apply eq_of_value (b := 256) (by omega) _ (bytesOf_lt e) (bytesOf_lt d)
    · exact hvalue'.trans hvalue
    · rw [bytesOf, List.length_map, hlen', hlen]
  rw [he, bytesOf_injective heq]

/-- What is encoded is decoded, with no size asked for or with its own. -/
theorem decode_encode_size (d : Bytes) {size : Option ℕ}
    (h : size = none ∨ size = some d.length) : decode (encode d) size = .ok d := by
  rcases h with rfl | rfl
  · exact decode_var_encode d
  · exact decode_own_size_encode d

/-! ## Checksums -/

theorem length_ripemd160Checksum (crypto : Crypto) (data : Bytes) (suffix : Option Str) :
    (ripemd160Checksum crypto data suffix).length = 4 := by
  rw [ripemd160Checksum, List.length_take, Checksum.size_eq]
  rfl

theorem length_dsha256Checksum (crypto : Crypto) (data : Bytes) :
    (dsha256Checksum crypto data).length = 4 := by
  rw [dsha256Checksum, List.length_take, Checksum.size_eq]
  rfl

/-- Data and its four checksum bytes, taken apart. -/
theorem take_drop_checksum {data sum : Bytes} (h : sum.length = 4) :
    ¬ (data ++ sum).length < 4 ∧ (data ++ sum).take ((data ++ sum).length - 4) = data ∧
      (data ++ sum).drop ((data ++ sum).length - 4) = sum := by
  have hlen : (data ++ sum).length - 4 = data.length := by
    rw [List.length_append, h, Nat.add_sub_cancel]
  refine ⟨by rw [List.length_append, h]; omega, ?_, ?_⟩
  · rw [hlen, List.take_left]
  · rw [hlen, List.drop_left]

/-- The sizes that go with data of some length, with the checksum and without. -/
theorem size_with_checksum {data sum : Bytes} (h : sum.length = 4) {size : Option ℕ}
    (hsize : size = none ∨ size = some data.length) :
    size.map (· + 4) = none ∨ size.map (· + 4) = some (data ++ sum).length := by
  rcases hsize with rfl | rfl
  · exact .inl rfl
  · right
    rw [List.length_append, h]
    rfl

/-- `decodeCheck` undoes `encodeCheck`. -/
theorem decodeCheck_encodeCheck (crypto : Crypto) (data : Bytes) {size : Option ℕ}
    (h : size = none ∨ size = some data.length) :
    decodeCheck crypto (encodeCheck crypto data) size = .ok data := by
  have hsum := length_dsha256Checksum crypto data
  obtain ⟨hlen, htake, hdrop⟩ := @take_drop_checksum data _ hsum
  rw [decodeCheck, encodeCheck, decode_encode_size _ (size_with_checksum hsum h), ok_bind,
    if_neg hlen]
  simp only [htake, hdrop, ne_eq, not_true_eq_false, if_false]
  rfl

/-- `decodeRipemd160Check` undoes `encodeRipemd160Check`. -/
theorem decodeRipemd160Check_encode (crypto : Crypto) (data : Bytes) (suffix : Option Str)
    {size : Option ℕ} (h : size = none ∨ size = some data.length) :
    decodeRipemd160Check crypto (encodeRipemd160Check crypto data suffix) size suffix =
      .ok data := by
  have hsum := length_ripemd160Checksum crypto data suffix
  obtain ⟨hlen, htake, hdrop⟩ := @take_drop_checksum data _ hsum
  rw [decodeRipemd160Check, encodeRipemd160Check,
    decode_encode_size _ (size_with_checksum hsum h), ok_bind, if_neg hlen]
  simp only [htake, hdrop, ne_eq, not_true_eq_false, if_false]
  rfl

/-- What is decoded is written in the alphabet. -/
theorem inAlphabet_of_decode {s : Str} {size : Option ℕ} {d : Bytes}
    (h : decode s size = .ok d) : InAlphabet s := by
  have hfold (fixed : Bool) (s : Str) (init ds : List ℕ)
      (hds : s.foldlM (decodeStep fixed) init = .ok ds) : InAlphabet s := by
    induction s generalizing init with
    | nil => simp [InAlphabet]
    | cons c s ih =>
      rw [List.foldlM_cons] at hds
      obtain ⟨mid, hmid, hrest⟩ := bind_eq_ok.mp hds
      refine List.forall_mem_cons.mpr ⟨?_, ih mid hrest⟩
      by_contra hc
      rw [decodeStep, charMap, if_neg hc] at hmid
      cases hmid
  unfold decode at h
  rcases size with - | n
  · obtain ⟨ds, hds, -⟩ := bind_eq_ok.mp h
    exact hfold _ _ _ _ hds
  · obtain ⟨ds, hds, -⟩ := bind_eq_ok.mp h
    exact hfold _ _ _ _ hds

/-- What a checksum is taken off: the data and its checksum were decoded. -/
theorem decodeRipemd160Check_eq_ok {crypto : Crypto} {s : Str} {size : Option ℕ}
    {suffix : Option Str} {data : Bytes}
    (h : decodeRipemd160Check crypto s size suffix = .ok data) :
    decode s (size.map (· + 4)) = .ok (data ++ ripemd160Checksum crypto data suffix) := by
  unfold decodeRipemd160Check at h
  obtain ⟨decoded, hdecoded, h⟩ := bind_eq_ok.mp h
  split at h
  · cases h
  · simp only at h
    split at h
    · cases h
    · rename_i hsum
      cases h
      rw [← not_not.mp hsum, List.take_append_drop, hdecoded]

/-- **The texts that carry data with its checksum**, no size being asked for. -/
theorem decodeRipemd160Check_none_iff (crypto : Crypto) (s : Str) (suffix : Option Str)
    (data : Bytes) :
    decodeRipemd160Check crypto s none suffix = .ok data ↔
      s = encodeRipemd160Check crypto data suffix := by
  constructor
  · intro h
    have hdecode := decodeRipemd160Check_eq_ok h
    obtain ⟨e, he, hs, -⟩ := encode_decode (inAlphabet_of_decode hdecode)
    rw [Option.map_none, he] at hdecode
    cases hdecode
    exact hs.symm
  · rintro rfl
    exact decodeRipemd160Check_encode crypto data suffix (.inl rfl)

/-- A size that is asked for is the length of the data. -/
theorem length_of_decodeRipemd160Check {crypto : Crypto} {s : Str} {n : ℕ} {suffix : Option Str}
    {data : Bytes} (h : decodeRipemd160Check crypto s (some n) suffix = .ok data) :
    data.length = n := by
  have hlen : (data ++ ripemd160Checksum crypto data suffix).length = n + 4 :=
    (decode_fixed_eq_ok (decodeRipemd160Check_eq_ok h)).2.1
  rw [List.length_append, length_ripemd160Checksum] at hlen
  omega

/-- **Base58 is a bijection on its language**: bytes are decoded from what they are
encoded as, a string over the alphabet is encoded from what it is decoded as,
leading zeros are leading `1`s, a fixed size is kept exactly when the value fits,
and both checksums are taken off again. -/
theorem base58_bijection (crypto : Crypto) (d : Bytes) (s : Str) (n : ℕ) (suffix : Option Str) :
    decode (encode d) none = .ok d ∧
    (InAlphabet s → ∃ e, decode s none = .ok e ∧ encode e = s ∧
      (e.takeWhile (· = 0)).length = (s.takeWhile (· = 49)).length) ∧
    ((∃ e, decode s (some n) = .ok e) ↔ InAlphabet s ∧ valueOf s < 256 ^ n) ∧
    (∀ e, decode s (some n) = .ok e → e.length = n ∧ bytesValue e = valueOf s) ∧
    (∀ size, size = none ∨ size = some d.length →
      decodeCheck crypto (encodeCheck crypto d) size = .ok d ∧
      decodeRipemd160Check crypto (encodeRipemd160Check crypto d suffix) size suffix = .ok d) := by
  refine ⟨decode_var_encode d, encode_decode, decode_fixed_iff n s, ?_, ?_⟩
  · intro e he
    exact (decode_fixed_eq_ok he).2
  · intro size hsize
    exact ⟨decodeCheck_encodeCheck crypto d hsize, decodeRipemd160Check_encode crypto d suffix hsize⟩

end Base58

end Dwarfkit
