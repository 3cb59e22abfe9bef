/-
# What a reader accepts

The other direction of the round trips: a value that was read is a valid one, and it is
written with no more bytes than were read for it.  The wire format has several forms of
one varuint32, so the bytes themselves may differ.

* `varuint32_tight` : the writer's form of a varuint32 is the shortest;
* `vector_tight`, `transaction_tight` : the compound types.
-/
import Dwarfkit.Antelope.Serializer.Structs

namespace Dwarfkit

open Wire

namespace AbiTraits

/-- What is read is valid and is written with no more bytes than were read. -/
def Tight {α : Type} (t : AbiTraits α) (valid : α → Prop) : Prop :=
  ∀ s x rest, t.fromABI.run s = .ok (x, rest) →
    valid x ∧ ∃ bytes, t.toABI x = .ok bytes ∧ bytes.length + rest.length ≤ s.length

/-! ## Varuints -/

/-- A number of `k` groups is written with at most `k` groups. -/
theorem length_lebBytes_le (g v k : ℕ) (hk : 1 ≤ k) (hv : v < 128 ^ k) :
    (lebBytes g v).length ≤ k := by
  induction g generalizing v k with
  | zero => simpa [lebBytes] using hk
  | succ g ih =>
    rw [lebBytes]
    split_ifs with h
    · simpa using hk
    · obtain ⟨k, rfl⟩ : ∃ j, k = j + 1 := ⟨k - 1, by omega⟩
      have hlt : v / 128 < 128 ^ k := by
        rw [pow_succ] at hv
        exact Nat.div_lt_of_lt_mul (by linarith)
      have hpos : 1 ≤ k := by
        rcases Nat.eq_zero_or_pos k with rfl | h
        · simp at hlt
          omega
        · exact h
      have hrest := ih (v / 128) k hpos hlt
      simp only [List.length_cons]
      omega

/-- What the loop of `readVaruint32` has read fits the groups it has read. -/
theorem readVaruint32From_fits (groups bit : ℕ) (acc v : UInt32) (s rest : Bytes)
    (hacc : acc.toNat < 2 ^ bit) (h : (readVaruint32From groups bit acc).run s = .ok (v, rest)) :
    ∃ k, 1 ≤ k ∧ s.length = k + rest.length ∧ v.toNat < 2 ^ (bit + 7 * k) := by
  induction groups generalizing bit acc s with
  | zero =>
    rw [readVaruint32From, StateT.run_bind] at h
    obtain ⟨p, -, h⟩ := bind_eq_ok.mp h
    cases h
  | succ groups ih =>
    rw [readVaruint32From, StateT.run_bind] at h
    obtain ⟨⟨b, tail⟩, hb, h⟩ := bind_eq_ok.mp h
    have hs : s = b :: tail := by
      cases s with
      | nil => cases hb
      | cons c s =>
        cases hb
        rfl
    -- one group keeps the accumulator below seven more bits
    have hnext : (acc ||| ((b &&& 0x7f).toUInt32 <<< bit.toUInt32)).toNat < 2 ^ (bit + 7) := by
      have hlow : (b &&& 0x7f).toNat < 2 ^ 7 := by
        rw [UInt8.toNat_and]
        exact Nat.lt_of_le_of_lt Nat.and_le_right (by decide)
      have hshift : (bit.toUInt32).toNat % 32 ≤ bit := by
        simp only [Nat.toUInt32, UInt32.toNat_ofNat']
        omega
      rw [UInt32.toNat_or]
      refine Nat.or_lt_two_pow (lt_of_lt_of_le hacc (Nat.pow_le_pow_right (by norm_num)
        (by omega))) ?_
      rw [UInt32.toNat_shiftLeft, UInt8.toNat_toUInt32, Nat.shiftLeft_eq]
      refine lt_of_le_of_lt (Nat.mod_le _ _) ?_
      calc (b &&& 0x7f).toNat * 2 ^ ((bit.toUInt32).toNat % 32)
          < 2 ^ 7 * 2 ^ ((bit.toUInt32).toNat % 32) := by
            exact Nat.mul_lt_mul_of_pos_right hlow (by positivity)
        _ ≤ 2 ^ 7 * 2 ^ bit := Nat.mul_le_mul_left _ (Nat.pow_le_pow_right (by norm_num) hshift)
        _ = 2 ^ (bit + 7) := by rw [← pow_add, Nat.add_comm]
    simp only at h
    split_ifs at h with hend
    · cases h
      exact ⟨1, le_rfl, by rw [hs, List.length_cons]; omega, by simpa using hnext⟩
    · obtain ⟨k, hk, hlen, hv⟩ := ih (bit + 7) _ tail hnext h
      refine ⟨k + 1, by omega, by rw [hs, List.length_cons]; omega, ?_⟩
      rwa [show bit + 7 * (k + 1) = bit + 7 + 7 * k by omega]

/-- **The writer's form of a varuint32 is the shortest.** -/
theorem readVaruint32_tight {s rest : Bytes} {v : UInt32}
    (h : readVaruint32.run s = .ok (v, rest)) :
    (writeVaruint32 v).length + rest.length ≤ s.length := by
  obtain ⟨k, hk, hlen, hv⟩ := readVaruint32From_fits 5 0 0 v s rest (by simp) h
  have hle : (writeVaruint32 v).length ≤ k := by
    refine length_lebBytes_le 4 v.toNat k hk ?_
    rwa [show (128 : ℕ) = 2 ^ 7 by norm_num, ← pow_mul, ← Nat.zero_add (7 * k)]
  omega

theorem varuint32_tight : varuint32.Tight (fun _ => True) :=
  fun _ v _ h => ⟨trivial, writeVaruint32 v, rfl, readVaruint32_tight h⟩

/-! ## Fixed widths and bytes -/

/-- An integer of `n` bytes that is cast to a value. -/
theorem readInt_tight {α : Type} {n : ℕ} {c : ℕ → α} {s rest : Bytes} {x : α}
    (h : (do
      let v ← readInt n
      return c v : Decoder α).run s = .ok (x, rest)) : s.length = n + rest.length := by
  rw [StateT.run_bind, readInt, StateT.run_bind] at h
  obtain ⟨⟨v, rest'⟩, hv, h⟩ := bind_eq_ok.mp h
  obtain ⟨⟨data, rest''⟩, hdata, hv⟩ := bind_eq_ok.mp hv
  cases hv
  cases h
  obtain ⟨hlen, rfl⟩ := readArray_eq_ok hdata
  rw [List.length_append, hlen]

theorem native_tight {α : Type} (abiName : Str) (n : ℕ) (signed : Bool) (toNat : α → ℕ)
    (ofInt : ℤ → α) (toJSON : α → Json) :
    (native abiName n signed toNat ofInt toJSON).Tight (fun _ => True) := by
  intro s x rest h
  have hlen := readInt_tight (c := fun v : ℕ => ofInt v) h
  refine ⟨trivial, writeInt n (toNat x), rfl, ?_⟩
  rw [writeInt, length_leBytes]
  omega

theorem time_tight {α : Type} (abiName : Str) (n : ℕ) (toNat : α → ℕ) (ofInt : ℤ → α)
    (toString : α → Str) (ofString : Str → Result α) :
    (time abiName n toNat ofInt toString ofString).Tight (fun _ => True) := by
  intro s x rest h
  have hlen := readInt_tight (c := fun v : ℕ => ofInt v) h
  refine ⟨trivial, writeInt n (toNat x), rfl, ?_⟩
  rw [writeInt, length_leBytes]
  omega

theorem name_tight : name.Tight (fun _ => True) := by
  intro s x rest h
  have hlen := readInt_tight (c := fun v : ℕ => (⟨UInt64.ofNat v⟩ : Name)) h
  refine ⟨trivial, writeInt 8 x.value.toNat, rfl, ?_⟩
  rw [writeInt, length_leBytes]
  omega

/-- Bytes behind their length. -/
theorem bytes_tight : bytes.Tight (fun b => b.length < 2 ^ 32) := by
  intro s x rest h
  unfold bytes textual at h
  simp only at h
  rw [StateT.run_bind] at h
  obtain ⟨⟨len, tail⟩, hlen, h⟩ := bind_eq_ok.mp h
  simp only at h
  obtain ⟨hx, htail⟩ := readArray_eq_ok h
  have hlt := len.toNat_lt
  have hback : x.length.toUInt32 = len := by
    rw [hx, ← UInt32.toNat_inj]
    simp only [Nat.toUInt32, UInt32.toNat_ofNat']
    omega
  have htight := readVaruint32_tight hlen
  refine ⟨by omega, writeString x, rfl, ?_⟩
  rw [writeString, hback, List.length_append]
  rw [htail, List.length_append] at htight
  omega

/-! ## Arrays -/

/-- The loop of a vector gives `n` items, each of them valid. -/
theorem readItems_tight {α : Type} {t : AbiTraits α} {valid : α → Prop} (ht : t.Tight valid)
    (n : ℕ) (rv l : List α) (s rest : Bytes)
    (h : (readItems t.fromABI n rv).run s = .ok (l, rest)) :
    ∃ items chunks, l = rv ++ items ∧ items.length = n ∧ (∀ x ∈ items, valid x) ∧
      items.mapM t.toABI = .ok chunks ∧ chunks.flatten.length + rest.length ≤ s.length := by
  induction n generalizing rv s with
  | zero =>
    cases h
    exact ⟨[], [], by simp, rfl, by simp, rfl, by simp⟩
  | succ n ih =>
    change (t.fromABI.run s >>= fun p =>
      (if p.2.length = s.length ∧ p.2.length + 1 ≤ rv.length then
        decodeErr .invalid "Array length exceeds remaining data"
      else readItems t.fromABI n (rv ++ [p.1]) : Decoder (List α)).run p.2) = _ at h
    obtain ⟨⟨x, tail⟩, hx, h⟩ := bind_eq_ok.mp h
    simp only at h
    -- The check on the length only ever refuses more; an item that is read goes on.
    split_ifs at h
    · cases h
    · obtain ⟨items, chunks, rfl, hlen, hvalid, hchunks, hsize⟩ := ih _ _ h
      obtain ⟨hvx, bytes, hbytes, hsmall⟩ := ht s x tail hx
      refine ⟨x :: items, bytes :: chunks, by simp, by simp [hlen], ?_, ?_, ?_⟩
      · intro y hy
        rcases List.mem_cons.mp hy with rfl | hy
        · exact hvx
        · exact hvalid y hy
      · rw [List.mapM_cons, hbytes, ok_bind, hchunks, ok_bind]
        rfl
      · rw [List.flatten_cons, List.length_append]
        omega

/-- **Lists that were read fit their length prefix.** -/
theorem vector_tight {α : Type} {t : AbiTraits α} {valid : α → Prop} (ht : t.Tight valid) :
    t.vector.Tight (fun l => l.length < 2 ^ 32 ∧ ∀ x ∈ l, valid x) := by
  intro s l rest h
  unfold vector at h
  simp only at h
  rw [StateT.run_bind] at h
  obtain ⟨⟨len, tail⟩, hlen, h⟩ := bind_eq_ok.mp h
  simp only at h
  obtain ⟨items, chunks, hl, hn, hvalid, hchunks, hsize⟩ := readItems_tight ht _ _ _ _ _ h
  obtain rfl : l = items := by rw [hl, List.nil_append]
  have hlt := len.toNat_lt
  have hback : l.length.toUInt32 = len := by
    rw [hn, ← UInt32.toNat_inj]
    simp only [Nat.toUInt32, UInt32.toNat_ofNat']
    omega
  have htight := readVaruint32_tight hlen
  refine ⟨⟨by omega, hvalid⟩, writeVaruint32 l.length.toUInt32 ++ chunks.flatten, ?_, ?_⟩
  · show (l.mapM t.toABI >>= fun items => _) = _
    rw [hchunks]
    rfl
  · rw [hback, List.length_append]
    omega

/-! ## The structs of the chain -/

theorem permissionLevel_tight : permissionLevel.Tight (fun _ => True) := by
  intro s x rest h
  unfold permissionLevel at h
  simp only [StateT.run_bind] at h
  obtain ⟨⟨actor, s₁⟩, hactor, h⟩ := bind_eq_ok.mp h
  obtain ⟨⟨permission, s₂⟩, hpermission, h⟩ := bind_eq_ok.mp h
  cases h
  obtain ⟨-, a, ha, hlen₁⟩ := name_tight _ _ _ hactor
  obtain ⟨-, b, hb, hlen₂⟩ := name_tight _ _ _ hpermission
  refine ⟨trivial, a ++ b, ?_, ?_⟩
  · show (name.toABI actor >>= fun a => name.toABI permission >>= fun b => pure (a ++ b)) = _
    rw [ha, ok_bind, hb]
    rfl
  · simp only [List.length_append] at hlen₁ hlen₂ ⊢
    omega

theorem action_tight : action.Tight Action.Sized := by
  intro s x rest h
  unfold action at h
  simp only [StateT.run_bind] at h
  obtain ⟨⟨account, s₁⟩, haccount, h⟩ := bind_eq_ok.mp h
  obtain ⟨⟨actionName, s₂⟩, hname, h⟩ := bind_eq_ok.mp h
  obtain ⟨⟨authorization, s₃⟩, hauth, h⟩ := bind_eq_ok.mp h
  obtain ⟨⟨data, s₄⟩, hdata, h⟩ := bind_eq_ok.mp h
  cases h
  obtain ⟨-, a, ha, hlen₁⟩ := name_tight _ _ _ haccount
  obtain ⟨-, b, hb, hlen₂⟩ := name_tight _ _ _ hname
  obtain ⟨hsized, c, hc, hlen₃⟩ := vector_tight permissionLevel_tight _ _ _ hauth
  obtain ⟨hbytes, d, hd, hlen₄⟩ := bytes_tight _ _ _ hdata
  refine ⟨⟨hsized.1, hbytes⟩, a ++ b ++ c ++ d, ?_, ?_⟩
  · show (name.toABI account >>= fun a => name.toABI actionName >>= fun b =>
      permissionLevel.vector.toABI authorization >>= fun c =>
      bytes.toABI data >>= fun d => pure (a ++ b ++ c ++ d)) = _
    rw [ha, ok_bind, hb, ok_bind, hc, ok_bind, hd]
    rfl
  · simp only [List.length_append] at hlen₁ hlen₂ hlen₃ hlen₄ ⊢
    omega

theorem transactionExtension_tight : transactionExtension.Tight TransactionExtension.Sized := by
  intro s x rest h
  unfold transactionExtension at h
  simp only [StateT.run_bind] at h
  obtain ⟨⟨type, s₁⟩, htype, h⟩ := bind_eq_ok.mp h
  obtain ⟨⟨data, s₂⟩, hdata, h⟩ := bind_eq_ok.mp h
  cases h
  obtain ⟨-, a, ha, hlen₁⟩ := native_tight _ _ _ _ _ _ _ _ _ htype
  obtain ⟨hbytes, b, hb, hlen₂⟩ := bytes_tight _ _ _ hdata
  refine ⟨hbytes, a ++ b, ?_, ?_⟩
  · show (uint16.toABI type >>= fun a => bytes.toABI data >>= fun b => pure (a ++ b)) = _
    rw [show uint16.toABI type = .ok a from ha, ok_bind, hb]
    rfl
  · simp only [List.length_append] at hlen₁ hlen₂ ⊢
    omega

theorem transactionHeader_tight : transactionHeader.Tight (fun _ => True) := by
  intro s x rest h
  unfold transactionHeader at h
  simp only [StateT.run_bind] at h
  obtain ⟨⟨expiration, s₁⟩, h₁, h⟩ := bind_eq_ok.mp h
  obtain ⟨⟨num, s₂⟩, h₂, h⟩ := bind_eq_ok.mp h
  obtain ⟨⟨pref, s₃⟩, h₃, h⟩ := bind_eq_ok.mp h
  obtain ⟨⟨net, s₄⟩, h₄, h⟩ := bind_eq_ok.mp h
  obtain ⟨⟨cpu, s₅⟩, h₅, h⟩ := bind_eq_ok.mp h
  obtain ⟨⟨delay, s₆⟩, h₆, h⟩ := bind_eq_ok.mp h
  cases h
  -- Each field is written in no more bytes than it was read from.
  obtain ⟨-, a, ha, hlen₁⟩ := time_tight _ _ _ _ _ _ _ _ _ h₁
  obtain ⟨-, b, hb, hlen₂⟩ := native_tight _ _ _ _ _ _ _ _ _ h₂
  obtain ⟨-, c, hc, hlen₃⟩ := native_tight _ _ _ _ _ _ _ _ _ h₃
  obtain ⟨-, d, hd, hlen₄⟩ := varuint32_tight _ _ _ h₄
  obtain ⟨-, e, he, hlen₅⟩ := native_tight _ _ _ _ _ _ _ _ _ h₅
  obtain ⟨-, f, hf, hlen₆⟩ := varuint32_tight _ _ _ h₆
  refine ⟨trivial, a ++ b ++ c ++ d ++ e ++ f, ?_, ?_⟩
  · show (timePointSec.toABI expiration >>= fun a => uint16.toABI num >>= fun b =>
      uint32.toABI pref >>= fun c => varuint32.toABI net >>= fun d => uint8.toABI cpu >>= fun e =>
      varuint32.toABI delay >>= fun f => pure (a ++ b ++ c ++ d ++ e ++ f)) = _
    rw [show timePointSec.toABI expiration = .ok a from ha, ok_bind,
      show uint16.toABI num = .ok b from hb, ok_bind,
      show uint32.toABI pref = .ok c from hc, ok_bind, hd, ok_bind,
      show uint8.toABI cpu = .ok e from he, ok_bind, hf]
    rfl
  · simp only [List.length_append] at hlen₁ hlen₂ hlen₃ hlen₄ hlen₅ hlen₆ ⊢
    omega

/-- **Transactions that were read fit their length prefixes.** -/
theorem transaction_tight : transaction.Tight Transaction.Sized := by
  intro s x rest h
  unfold transaction at h
  simp only [StateT.run_bind] at h
  obtain ⟨⟨header, s₁⟩, h₁, h⟩ := bind_eq_ok.mp h
  obtain ⟨⟨cfa, s₂⟩, h₂, h⟩ := bind_eq_ok.mp h
  obtain ⟨⟨actions, s₃⟩, h₃, h⟩ := bind_eq_ok.mp h
  obtain ⟨⟨extensions, s₄⟩, h₄, h⟩ := bind_eq_ok.mp h
  cases h
  obtain ⟨-, a, ha, hlen₁⟩ := transactionHeader_tight _ _ _ h₁
  obtain ⟨hcfa, b, hb, hlen₂⟩ := vector_tight action_tight _ _ _ h₂
  obtain ⟨hactions, c, hc, hlen₃⟩ := vector_tight action_tight _ _ _ h₃
  obtain ⟨hextensions, d, hd, hlen₄⟩ := vector_tight transactionExtension_tight _ _ _ h₄
  refine ⟨⟨hcfa, hactions, hextensions⟩, a ++ b ++ c ++ d, ?_, ?_⟩
  · show (transactionHeader.toABI header >>= fun a => action.vector.toABI cfa >>= fun b =>
      action.vector.toABI actions >>= fun c =>
      transactionExtension.vector.toABI extensions >>= fun d => pure (a ++ b ++ c ++ d)) = _
    rw [ha, ok_bind, hb, ok_bind, hc, ok_bind, hd]
    rfl
  · simp only [List.length_append] at hlen₁ hlen₂ hlen₃ hlen₄ ⊢
    omega

end AbiTraits

end Dwarfkit
