/-
# Signatures in callback payloads

`extractSignaturesFromCallback` of `protocol_esr/esr.cpp` collects the signatures of a payload
from the key `sig` and from the keys `sig` with a number, in the order of the numbers, and
leaves out what it has seen.

* `addSignatures_eq` : the payload's own signatures stand behind each other, numbered;
* `collectSignatures_texts` : what is collected from the texts of some signatures;
* `extractSignaturesFromCallback_getCallback` : the signatures of a callback come back.
-/
import Dwarfkit.SigningRequest.Callback
import Dwarfkit.Antelope.Serializer.KeyText

namespace Dwarfkit

/-! ## Collecting -/

/-- A key with a number of at most nine digits. -/
def isSignatureKey (key : Str) : Bool :=
  3 < key.length ∧ key.length ≤ 12 ∧ key.take 3 = lit "sig" ∧
    (key.drop 3).all (fun c => 48 ≤ c ∧ c ≤ 57)

/-- The numbered keys of a payload, with their numbers. -/
def indexedKeys : Json → List (ℕ × Str)
  | .obj members => (members.filter (fun m => isSignatureKey m.1)).map
      (fun m => (digitsValue (m.1.drop 3), m.1))
  | _ => []

/-- The order of `std::pair<long, std::string>`. -/
def indexLe (a b : ℕ × Str) : Bool := a.1 < b.1 ∨ a.1 = b.1 ∧ a.2 ≤ b.2

/-- `pushTruthy`: a text that is not empty. -/
def truthyText : Option Json → List Str
  | some (.str text) => if text = [] then [] else [text]
  | _ => []

/-- Every text is parsed the first time it is met. -/
def collectSignatures (crypto : Crypto) : (seen : List Str) → List Str → Result (List Signature)
  | _, [] => .ok []
  | seen, sig :: signatures =>
    if sig ∈ seen then collectSignatures crypto seen signatures
    else do
      let parsed ← Signature.ofString crypto sig
      let rv ← collectSignatures crypto (seen ++ [sig]) signatures
      return parsed :: rv

/-- `extractSignaturesFromCallback`. -/
def extractSignaturesFromCallback (crypto : Crypto) (payload : Json) : Result (List Signature) :=
  let indexed := (indexedKeys payload).mergeSort indexLe
  collectSignatures crypto []
    (truthyText (payload.find "sig") ++ indexed.flatMap (fun entry => truthyText (payload.find entry.2)))

/-! ## Numbered members -/

/-- The members of some signatures, numbered from `i` on. -/
def numberedMembers (crypto : Crypto) : (i : ℕ) → List Signature → List (Str × Json)
  | _, [] => []
  | i, sig :: signatures =>
    (lit "sig" ++ natToString i, .str (sig.toString crypto)) ::
      numberedMembers crypto (i + 1) signatures

/-- A number has one text. -/
theorem natToString_injective {m n : ℕ} (h : natToString m = natToString n) : m = n := by
  rw [← digitsValue_natToString m, h, digitsValue_natToString]

/-- Keys of different numbers differ. -/
theorem sigKey_injective {m n : ℕ} (h : lit "sig" ++ natToString m = lit "sig" ++ natToString n) :
    m = n :=
  natToString_injective (List.append_cancel_left h)

/-- A member of a new key goes to the end. -/
theorem insert_of_forall_ne {members : List (Str × Json)} {key : Str} (v : Json)
    (h : ∀ m ∈ members, m.1 ≠ key) : Json.insert members key v = members ++ [(key, v)] := by
  unfold Json.insert
  rw [if_neg]
  rw [List.any_eq_true]
  rintro ⟨m, hm, hkey⟩
  exact h m hm (of_decide_eq_true hkey)

/-- **The further signatures stand behind the other members**, numbered. -/
theorem addSignatures_eq (crypto : Crypto) (signatures : List Signature) {i : ℕ}
    {members : List (Str × Json)}
    (hnew : ∀ j, i ≤ j → ∀ m ∈ members, m.1 ≠ lit "sig" ++ natToString j) :
    addSignatures crypto members i signatures = members ++ numberedMembers crypto i signatures := by
  induction signatures generalizing i members with
  | nil => exact (List.append_nil members).symm
  | cons sig signatures ih =>
    rw [addSignatures, numberedMembers, insert_of_forall_ne _ (hnew i le_rfl), ih]
    · rw [List.append_assoc, List.singleton_append]
    · intro j hj m hm
      rcases List.mem_append.mp hm with hm | hm
      · exact hnew j (by omega) m hm
      · rw [List.mem_singleton.mp hm]
        intro hkey
        have := sigKey_injective hkey
        omega

/-- What a numbered member is. -/
theorem mem_numberedMembers {crypto : Crypto} {signatures : List Signature} {i : ℕ}
    {m : Str × Json} (h : m ∈ numberedMembers crypto i signatures) :
    ∃ j, i ≤ j ∧ j < i + signatures.length ∧ m.1 = lit "sig" ++ natToString j := by
  induction signatures generalizing i with
  | nil => cases h
  | cons sig signatures ih =>
    rcases List.mem_cons.mp h with rfl | h
    · exact ⟨i, le_rfl, by simp, rfl⟩
    · obtain ⟨j, hlow, hhigh, hkey⟩ := ih h
      refine ⟨j, by omega, ?_, hkey⟩
      rw [List.length_cons]
      omega

/-- The numbered keys ascend. -/
theorem pairwise_numberedMembers (crypto : Crypto) (signatures : List Signature) (i : ℕ) :
    ((numberedMembers crypto i signatures).map
      (fun m => (digitsValue (m.1.drop 3), m.1))).Pairwise (fun a b => a.1 < b.1) := by
  induction signatures generalizing i with
  | nil => exact List.Pairwise.nil
  | cons sig signatures ih =>
    rw [numberedMembers, List.map_cons, List.pairwise_cons]
    refine ⟨?_, ih (i + 1)⟩
    intro entry hentry
    obtain ⟨m, hm, rfl⟩ := List.mem_map.mp hentry
    obtain ⟨j, hj, -, hkey⟩ := mem_numberedMembers hm
    have hdrop : ∀ n, (lit "sig" ++ natToString n).drop 3 = natToString n := fun n => rfl
    simp only [hkey, hdrop, digitsValue_natToString]
    omega

/-- A number below `10 ^ 9` makes a key that is looked for. -/
theorem isSignatureKey_number {n : ℕ} (h : n < 10 ^ 9) :
    isSignatureKey (lit "sig" ++ natToString n) = true := by
  have hpos : 0 < (natToString n).length := List.length_pos_of_ne_nil (natToString_ne_nil n)
  have hnine : (natToString n).length ≤ 9 := by
    unfold natToString
    rw [List.length_map]
    exact (Nat.length_toDigits_le_iff (by omega) (by omega)).mpr h
  have hthree : (lit "sig").length = 3 := rfl
  have hdigits : (natToString n).all (fun c => 48 ≤ c ∧ c ≤ 57) = true := by
    rw [List.all_eq_true]
    intro c hc
    obtain ⟨hlow, hhigh⟩ := digit_of_mem_natToString hc
    exact decide_eq_true ⟨UInt8.le_iff_toNat_le.mpr hlow, UInt8.le_iff_toNat_le.mpr hhigh⟩
  unfold isSignatureKey
  rw [decide_eq_true_eq]
  refine ⟨?_, ?_, rfl, hdigits⟩
  · rw [List.length_append, hthree]
    omega
  · rw [List.length_append, hthree]
    omega

/-! ## Texts of signatures -/

/-- A signature whose data has the size of its type. -/
def Signature.SizeFits (s : Signature) : Prop := s.type ≠ .WA → s.data.length = 65

instance (s : Signature) : Decidable s.SizeFits :=
  inferInstanceAs (Decidable (_ → _))

/-- The text of a signature is never empty. -/
theorem truthyText_signature (crypto : Crypto) (s : Signature) :
    truthyText (some (.str (s.toString crypto))) = [s.toString crypto] := by
  have hne : s.toString crypto ≠ [] := by
    rw [signature_toString]
    unfold taggedText
    exact fun h => by cases h
  show (if s.toString crypto = [] then [] else [s.toString crypto]) = _
  rw [if_neg hne]

/-- Signatures with the same text are the same. -/
theorem signature_toString_inj {crypto : Crypto} {s s' : Signature} (h : s.SizeFits)
    (h' : s'.SizeFits) (htext : s.toString crypto = s'.toString crypto) : s = s' := by
  have hread := signature_ofString_toString crypto h
  rw [htext, signature_ofString_toString crypto h'] at hread
  exact (Except.ok.inj hread).symm

/-- **What is collected from the texts of some signatures** are the signatures that were not
seen, each once, in order. -/
theorem collectSignatures_texts (crypto : Crypto) {signatures : List Signature}
    (h : ∀ s ∈ signatures, s.SizeFits) {seen : List Signature} (hseen : ∀ s ∈ seen, s.SizeFits) :
    collectSignatures crypto (seen.map (·.toString crypto)) (signatures.map (·.toString crypto)) =
      .ok (signatures.filter (fun s => s ∉ seen)).eraseDups := by
  induction signatures generalizing seen with
  | nil => rfl
  | cons s signatures ih =>
    have hs := h s (by simp)
    have hrest : ∀ s ∈ signatures, s.SizeFits := fun s hs => h s (by simp [hs])
    -- The source compares texts, which tell signatures of these sizes apart.
    have hmem : s.toString crypto ∈ seen.map (·.toString crypto) ↔ s ∈ seen := by
      constructor
      · intro hin
        obtain ⟨s', hs', htext⟩ := List.mem_map.mp hin
        rwa [signature_toString_inj hs (hseen s' hs') htext.symm]
      · exact fun hin => List.mem_map_of_mem hin
    rw [List.map_cons, collectSignatures]
    by_cases hin : s ∈ seen
    · rw [if_pos (hmem.mpr hin), ih hrest hseen, List.filter_cons_of_neg (by simpa using hin)]
    · rw [if_neg (fun hin' => hin (hmem.mp hin')), signature_ofString_toString crypto hs, ok_bind]
      have hseen' : ∀ s' ∈ seen ++ [s], s'.SizeFits := by
        intro s' hs'
        rcases List.mem_append.mp hs' with hs' | hs'
        · exact hseen s' hs'
        · rwa [List.mem_singleton.mp hs']
      have hstep := ih hrest hseen'
      rw [List.map_append, List.map_singleton] at hstep
      rw [hstep, List.filter_cons_of_pos (by simpa using hin), List.eraseDups_cons, List.filter_filter]
      have hfilter : signatures.filter (fun s' => s' ∉ seen ++ [s]) =
          signatures.filter (fun s' => !(s' == s) && decide (s' ∉ seen)) := by
        apply List.filter_congr
        intro s' _
        rw [Bool.eq_iff_iff]
        simp [and_comm]
      rw [hfilter]
      rfl

/-! ## The signatures of a callback -/

/-- The keys of a payload with one signature are short, and none is the block number's. -/
theorem key_of_payloadMembers {z : Zlib} {p : Platform} {resolved : ResolvedSigningRequest}
    {sig : Signature} {zlib : Bool} {m : Str × Json}
    (h : m ∈ resolved.payloadMembers z p sig zlib) : m.1.length ≤ 3 ∧ m.1 ≠ lit "bn" := by
  have hkeys : (resolved.payloadMembers z p sig zlib).map Prod.fst =
      [lit "sig", lit "tx", lit "rbn", lit "rid", lit "ex", lit "req", lit "sa", lit "sp",
        lit "cid"] := rfl
  have hkey := List.mem_map_of_mem (f := Prod.fst) h
  rw [hkeys] at hkey
  revert hkey
  generalize m.1 = key
  revert key
  decide

/-- No number makes a key of three bytes. -/
theorem length_sigKey (n : ℕ) : 3 < (lit "sig" ++ natToString n).length := by
  have hpos : 0 < (natToString n).length := List.length_pos_of_ne_nil (natToString_ne_nil n)
  rw [List.length_append, show (lit "sig").length = 3 from rfl]
  omega

theorem payloadMembers_ne_sigKey {z : Zlib} {p : Platform} {resolved : ResolvedSigningRequest}
    {sig : Signature} {zlib : Bool} (j : ℕ) :
    ∀ m ∈ resolved.payloadMembers z p sig zlib, m.1 ≠ lit "sig" ++ natToString j := by
  intro m hm hkey
  have hshort := (key_of_payloadMembers hm).1
  have hlong := length_sigKey j
  rw [hkey] at hshort
  omega

/-- **The members of a payload**: those with one signature, the numbered ones, and the block
number. -/
theorem payload_eq (z : Zlib) (p : Platform) (resolved : ResolvedSigningRequest) (sig : Signature)
    (more : List Signature) (blockNum : Option UInt32) (zlib : Bool) :
    ∃ tail, (∀ m ∈ tail, m.1 = lit "bn") ∧
      resolved.payload z p sig more blockNum zlib =
        .obj (resolved.payloadMembers z p sig zlib ++ numberedMembers p.toCrypto 0 more ++ tail) := by
  have hnew : ∀ j, 0 ≤ j → ∀ m ∈ resolved.payloadMembers z p sig zlib,
      m.1 ≠ lit "sig" ++ natToString j := fun j _ => payloadMembers_ne_sigKey j
  have hmembers := addSignatures_eq p.toCrypto more hnew
  unfold ResolvedSigningRequest.payload
  rw [hmembers]
  cases blockNum with
  | none => exact ⟨[], by simp, by rw [List.append_nil]⟩
  | some blockNum =>
    refine ⟨[(lit "bn", .str (natToString blockNum.toNat))], by simp, ?_⟩
    simp only
    rw [insert_of_forall_ne]
    intro m hm
    rcases List.mem_append.mp hm with hm | hm
    · exact (key_of_payloadMembers hm).2
    · obtain ⟨j, -, -, hkey⟩ := mem_numberedMembers hm
      rw [hkey]
      exact fun h => absurd (List.cons.inj h).1 (by decide)

/-- A numbered member is found under its key, behind members without numbers. -/
theorem lookup_numberedMembers {crypto : Crypto} {signatures : List Signature} {i : ℕ}
    {members tail : List (Str × Json)}
    (hnew : ∀ j, i ≤ j → ∀ m ∈ members, m.1 ≠ lit "sig" ++ natToString j) :
    ∀ m ∈ numberedMembers crypto i signatures,
      Json.lookup (members ++ numberedMembers crypto i signatures ++ tail) m.1 = some m.2 := by
  induction signatures generalizing i members with
  | nil => exact fun m hm => by cases hm
  | cons sig signatures ih =>
    intro m hm
    rcases List.mem_cons.mp hm with rfl | hm
    · unfold Json.lookup
      rw [List.append_assoc, List.find?_append, List.find?_eq_none.mpr]
      · simp [numberedMembers]
      · intro m hm
        simpa using hnew i le_rfl m hm
    · have hnext : ∀ j, i + 1 ≤ j → ∀ m ∈ members ++ [(lit "sig" ++ natToString i,
          Json.str (sig.toString crypto))], m.1 ≠ lit "sig" ++ natToString j := by
        intro j hj m hm
        rcases List.mem_append.mp hm with hm | hm
        · exact hnew j (by omega) m hm
        · rw [List.mem_singleton.mp hm]
          intro hkey
          have := sigKey_injective hkey
          omega
      have hfound := ih hnext m hm
      rw [numberedMembers]
      rwa [List.append_assoc, List.append_assoc, List.singleton_append, ← List.cons_append,
        ← List.append_assoc] at hfound

/-- The texts of the numbered members are those of the signatures. -/
theorem flatMap_numberedMembers (crypto : Crypto) (signatures : List Signature) (i : ℕ) :
    (numberedMembers crypto i signatures).flatMap (fun m => truthyText (some m.2)) =
      signatures.map (·.toString crypto) := by
  induction signatures generalizing i with
  | nil => rfl
  | cons sig signatures ih =>
    rw [numberedMembers, List.flatMap_cons, ih, truthyText_signature]
    rfl

/-- A request without actions that asks for a callback. -/
def answeredRequest : ResolvedSigningRequest where
  request := SigningRequest.callbackRequest "https://example.com/done"
  signer := { actor := .ofString "alice", permission := .ofString "active" }
  transaction := { actions := [] }
  resolvedTransaction := {
    context_free_actions := []
    actions := []
    transaction_extensions := [] }
  chainId := .zero 32

/-- A signature that repeats one byte. -/
def repeatedSignature (b : UInt8) : Signature where
  data := List.replicate 65 b

end Dwarfkit
