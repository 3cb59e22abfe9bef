/-
# Prefix readers and integer wire forms

Infrastructure for binary formats, over any symbol, error and value types.

A reader takes a value off the front of its input.  `Reads r chunk a` says that
`r` reads `chunk` as `a` whatever follows it, which is the form in which facts
about readers compose:

* `Reads.bind`, `Reads.map`, `Reads.times`: reading in sequence;
* `Yields`: what is known of every value that is read;
* `FailsIn`: what is known of every error;
* `leValue_leBytes` : little-endian bytes carry their number;
* `lebValue_lebBytes` : so do base-128 groups.
-/
import Mathlib

namespace Wire

/-! ## Readers -/

section Reader

variable {σ ε α β : Type}

/-- A reader takes a value off the front of a list of symbols, or fails. -/
abbrev Reader (σ ε α : Type) := StateT (List σ) (Except ε) α

/-- `r` reads `chunk` as `a`, whatever follows `chunk`. -/
def Reads (r : Reader σ ε α) (chunk : List σ) (a : α) : Prop :=
  ∀ rest, r.run (chunk ++ rest) = .ok (a, rest)

/-- A pure reader reads nothing. -/
theorem Reads.pure (a : α) : Reads (Pure.pure a : Reader σ ε α) [] a :=
  fun _ => rfl

/-- Reading in sequence reads the concatenation. -/
theorem Reads.bind {r : Reader σ ε α} {f : α → Reader σ ε β} {c d : List σ} {a : α} {b : β}
    (h : Reads r c a) (h' : Reads (f a) d b) : Reads (r >>= f) (c ++ d) b := by
  intro rest
  rw [StateT.run_bind, List.append_assoc, h (d ++ rest)]
  exact h' rest

/-- A reader whose value is post-processed reads the same symbols. -/
theorem Reads.map {r : Reader σ ε α} {c : List σ} {a : α} (h : Reads r c a) (f : α → β) :
    Reads (f <$> r) c (f a) := by
  intro rest
  rw [StateT.run_map, h rest]
  rfl

/-- The last part of a sequence, whose value only goes into the result. -/
theorem Reads.bind_pure {r : Reader σ ε α} {c : List σ} {a : α} (h : Reads r c a) (f : α → β) :
    Reads (r >>= fun a => Pure.pure (f a)) c (f a) := by
  have hbind := h.bind (f := fun a => Pure.pure (f a)) (Reads.pure (f a))
  rwa [List.append_nil] at hbind

/-- At the end of the input a reader leaves nothing over. -/
theorem Reads.run_eq {r : Reader σ ε α} {c : List σ} {a : α} (h : Reads r c a) :
    r.run c = .ok (a, []) := by
  have := h []
  rwa [List.append_nil] at this

/-- What a sequence reads, its first part has read from the front. -/
theorem run_bind_eq_ok {r : Reader σ ε α} {f : α → Reader σ ε β} {s rest : List σ} {b : β}
    (h : (r >>= f).run s = .ok (b, rest)) :
    ∃ a mid, r.run s = .ok (a, mid) ∧ (f a).run mid = .ok (b, rest) := by
  rw [StateT.run_bind] at h
  rcases hr : r.run s with e | ⟨a, mid⟩
  · rw [hr] at h
    cases h
  · rw [hr] at h
    exact ⟨a, mid, rfl, h⟩

/-- Read a value `n` times over. -/
def times (r : Reader σ ε α) : ℕ → Reader σ ε (List α)
  | 0 => Pure.pure []
  | n + 1 => do
    let a ← r
    let rest ← times r n
    Pure.pure (a :: rest)

/-- Reading a list of chunks one after the other. -/
theorem Reads.times {r : Reader σ ε α} {chunk : β → List σ} {v : β → α} (bs : List β)
    (h : ∀ b ∈ bs, Reads r (chunk b) (v b)) :
    Reads (times r bs.length) (bs.flatMap chunk) (bs.map v) := by
  induction bs with
  | nil => exact Reads.pure []
  | cons b bs ih =>
    have hb : Reads r (chunk b) (v b) := h b (by simp)
    have hbs := ih (fun c hc => h c (by simp [hc]))
    have hcons : Reads (do
        let rest ← Wire.times r bs.length
        Pure.pure (v b :: rest)) (bs.flatMap chunk ++ []) (v b :: bs.map v) :=
      hbs.bind (Reads.pure _)
    rw [List.append_nil] at hcons
    exact hb.bind hcons

/-- Every value that `r` reads has `P`. -/
def Yields (r : Reader σ ε α) (P : α → Prop) : Prop := ∀ s a rest, r.run s = .ok (a, rest) → P a

theorem Yields.pure {P : α → Prop} {a : α} (h : P a) :
    Yields (Pure.pure a : Reader σ ε α) P := by
  intro s b rest hrun
  cases hrun
  exact h

/-- What was read first is known to what is read after it. -/
theorem Yields.bind {r : Reader σ ε α} {f : α → Reader σ ε β} {P : α → Prop} {Q : β → Prop}
    (h : Yields r P) (h' : ∀ a, P a → Yields (f a) Q) : Yields (r >>= f) Q := by
  intro s b rest hrun
  rw [StateT.run_bind] at hrun
  cases hr : r.run s with
  | error e => rw [hr] at hrun; cases hrun
  | ok p =>
    obtain ⟨a, mid⟩ := p
    rw [hr] at hrun
    exact h' a (h s a mid hr) mid b rest hrun

/-- Reading `n` times over yields `n` values. -/
theorem Yields.times {r : Reader σ ε α} {P : α → Prop} (h : Yields r P) (n : ℕ) :
    Yields (times r n) (fun l => l.length = n ∧ ∀ a ∈ l, P a) := by
  induction n with
  | zero => exact Yields.pure ⟨rfl, by simp⟩
  | succ n ih =>
    refine h.bind (fun a ha => ih.bind ?_)
    rintro l ⟨hlength, hl⟩
    refine Yields.pure ⟨by rw [List.length_cons, hlength], ?_⟩
    exact List.forall_mem_cons.mpr ⟨ha, hl⟩

/-- Every error of `r` has `P`. -/
def FailsIn (P : ε → Prop) (r : Reader σ ε α) : Prop := ∀ s e, r.run s = .error e → P e

theorem FailsIn.pure {P : ε → Prop} (a : α) : FailsIn P (Pure.pure a : Reader σ ε α) := by
  rintro s e ⟨⟩

/-- The errors of a sequence are those of its parts. -/
theorem FailsIn.bind {P : ε → Prop} {r : Reader σ ε α} {f : α → Reader σ ε β} (h : FailsIn P r)
    (h' : ∀ a, FailsIn P (f a)) : FailsIn P (r >>= f) := by
  intro s e hrun
  rw [StateT.run_bind] at hrun
  cases hr : r.run s with
  | error e' =>
    rw [hr] at hrun
    cases hrun
    exact h s e hr
  | ok q =>
    obtain ⟨a, mid⟩ := q
    rw [hr] at hrun
    exact h' a mid e hrun

/-- What is read only goes into the result. -/
theorem FailsIn.map {P : ε → Prop} {r : Reader σ ε α} (h : FailsIn P r) (f : α → β) :
    FailsIn P (r >>= fun a => Pure.pure (f a)) :=
  h.bind (fun a => FailsIn.pure (f a))

theorem FailsIn.ite {P : ε → Prop} {c : Prop} [Decidable c] {r r' : Reader σ ε α}
    (h : FailsIn P r) (h' : FailsIn P r') : FailsIn P (if c then r else r') := by
  split
  · exact h
  · exact h'

theorem FailsIn.mono {P Q : ε → Prop} {r : Reader σ ε α} (h : FailsIn P r)
    (hPQ : ∀ e, P e → Q e) : FailsIn Q r :=
  fun s e hrun => hPQ e (h s e hrun)

/-- What `r` leaves is a suffix of what it was given. -/
def TakesPrefix (r : Reader σ ε α) : Prop :=
  ∀ s a rest, r.run s = .ok (a, rest) → ∃ chunk, s = chunk ++ rest

/-- Reading in sequence leaves a suffix when both parts do. -/
theorem TakesPrefix.bind {r : Reader σ ε α} {f : α → Reader σ ε β} (h : TakesPrefix r)
    (h' : ∀ a, TakesPrefix (f a)) : TakesPrefix (r >>= f) := by
  intro s b rest hrun
  rw [StateT.run_bind] at hrun
  cases hr : r.run s with
  | error e => rw [hr] at hrun; cases hrun
  | ok p =>
    obtain ⟨a, mid⟩ := p
    rw [hr] at hrun
    obtain ⟨c, rfl⟩ := h s a mid hr
    obtain ⟨d, rfl⟩ := h' a mid b rest hrun
    exact ⟨c ++ d, by rw [List.append_assoc]⟩

/-- A pure reader leaves everything. -/
theorem TakesPrefix.pure (a : α) : TakesPrefix (Pure.pure a : Reader σ ε α) := by
  intro s b rest h
  cases h
  exact ⟨[], rfl⟩

end Reader

/-! ## Bytes -/

/-- A property of bytes holds of all of them once it holds of `0 … 255`. -/
theorem forall_byte {P : UInt8 → Prop} (h : ∀ n : Fin 256, P (UInt8.ofNat n)) (b : UInt8) :
    P b := by
  have := h ⟨b.toNat, b.toNat_lt⟩
  simpa using this

/-! ## Little-endian integers -/

/-- The `n` low bytes of `v`, lowest first. -/
def leBytes : (n v : ℕ) → List UInt8
  | 0, _ => []
  | n + 1, v => v.toUInt8 :: leBytes n (v / 256)

/-- The number a little-endian byte list stands for. -/
def leValue : List UInt8 → ℕ
  | [] => 0
  | b :: bs => b.toNat + 256 * leValue bs

@[simp]
theorem length_leBytes (n v : ℕ) : (leBytes n v).length = n := by
  induction n generalizing v with
  | zero => rfl
  | succ n ih => rw [leBytes, List.length_cons, ih]

/-- Little-endian bytes carry their number modulo their width. -/
theorem leValue_leBytes_mod (n v : ℕ) : leValue (leBytes n v) = v % 256 ^ n := by
  induction n generalizing v with
  | zero => rw [leBytes, leValue, pow_zero, Nat.mod_one]
  | succ n ih =>
    have hb : (v.toUInt8).toNat = v % 256 := by simp
    rw [leBytes, leValue, ih, hb, pow_succ', Nat.mod_mul]

/-- A number that fits is read back from its little-endian bytes. -/
theorem leValue_leBytes {n v : ℕ} (h : v < 256 ^ n) : leValue (leBytes n v) = v := by
  rw [leValue_leBytes_mod, Nat.mod_eq_of_lt h]

/-- A little-endian byte list stands for a number below its width. -/
theorem leValue_lt (bs : List UInt8) : leValue bs < 256 ^ bs.length := by
  induction bs with
  | nil => simp [leValue]
  | cons b bs ih =>
    have hb : b.toNat < 256 := b.toNat_lt
    rw [leValue, List.length_cons, pow_succ']
    omega

/-- Writing the number a byte list stands for gives the list back. -/
theorem leBytes_leValue (bs : List UInt8) : leBytes bs.length (leValue bs) = bs := by
  induction bs with
  | nil => rfl
  | cons b bs ih =>
    have hb : b.toNat < 256 := b.toNat_lt
    have hdiv : (b.toNat + 256 * leValue bs) / 256 = leValue bs := by omega
    have hmod : (b.toNat + 256 * leValue bs).toUInt8 = b := by
      rw [← UInt8.toNat_inj]
      simp
    rw [List.length_cons, leBytes, leValue, hdiv, ih, hmod]

/-! ## Base-128 integers -/

/-- The base-128 groups of `v`, lowest first, the high bit marking that another
group follows; `g + 1` groups at most. -/
def lebBytes : (g v : ℕ) → List UInt8
  | 0, v => [v.toUInt8]
  | g + 1, v =>
    if v / 128 = 0 then [v.toUInt8] else (128 + v % 128).toUInt8 :: lebBytes g (v / 128)

/-- Split the groups of one base-128 integer off a byte list: the groups and the
number they stand for, at most `g + 1` of them. -/
def lebValue : (g : ℕ) → List UInt8 → Option (ℕ × List UInt8)
  | _, [] => none
  | 0, b :: bs => if b < 128 then some (b.toNat, bs) else none
  | g + 1, b :: bs =>
    if b < 128 then some (b.toNat, bs)
    else (lebValue g bs).map (fun p => (b.toNat - 128 + 128 * p.1, p.2))

/-- A base-128 integer of at most `g + 1` groups is read back from its bytes. -/
theorem lebValue_lebBytes (g v : ℕ) (h : v < 128 ^ (g + 1)) (rest : List UInt8) :
    lebValue g (lebBytes g v ++ rest) = some (v, rest) := by
  induction g generalizing v with
  | zero =>
    have hv : v < 128 := by simpa using h
    have hn : (v.toUInt8).toNat = v := by simp; omega
    have hlt : v.toUInt8 < 128 := by rw [UInt8.lt_iff_toNat_lt, hn]; exact hv
    simp [lebBytes, lebValue, hlt, hn]
  | succ g ih =>
    rw [lebBytes]
    by_cases hv : v / 128 = 0
    · have hn : (v.toUInt8).toNat = v := by simp; omega
      have hlt : v.toUInt8 < 128 := by
        rw [UInt8.lt_iff_toNat_lt, hn]
        show v < 128
        omega
      rw [if_pos hv, List.singleton_append, lebValue, if_pos hlt, hn]
    · have hn : ((128 + v % 128).toUInt8).toNat = 128 + v % 128 := by simp; omega
      have hge : ¬ (128 + v % 128).toUInt8 < 128 := by
        rw [UInt8.lt_iff_toNat_lt, hn]
        show ¬ (128 + v % 128 < 128)
        omega
      have hdiv : v / 128 < 128 ^ (g + 1) := by
        rw [pow_succ] at h
        exact Nat.div_lt_of_lt_mul (by linarith)
      have hsum : 128 + v % 128 - 128 + 128 * (v / 128) = v := by omega
      rw [if_neg hv, List.cons_append, lebValue, if_neg hge, ih _ hdiv, Option.map_some, hn, hsum]

/-- At most `g + 1` groups. -/
theorem length_lebBytes_le_groups (g v : ℕ) : (lebBytes g v).length ≤ g + 1 := by
  induction g generalizing v with
  | zero => rfl
  | succ g ih =>
    rw [lebBytes]
    split
    · simp
    · rw [List.length_cons]
      exact Nat.add_le_add_right (ih _) 1

/-- A whole base-128 integer of any length: a group with its high bit clear ends it. -/
inductive IsLeb : List UInt8 → Prop
  | last {b : UInt8} (h : b < 128) : IsLeb [b]
  | more {b : UInt8} {bs : List UInt8} (h : 128 ≤ b) (hbs : IsLeb bs) : IsLeb (b :: bs)

/-- The number base-128 groups stand for, however many they are. -/
def lebNumber : List UInt8 → ℕ
  | [] => 0
  | b :: bs => b.toNat % 128 + 128 * lebNumber bs

theorem IsLeb.ne_nil {c : List UInt8} (h : IsLeb c) : c ≠ [] := by
  rintro rfl
  cases h

/-- No base-128 integer begins with a shorter one. -/
theorem IsLeb.prefix_free {c d r s : List UInt8} (hc : IsLeb c) (hd : IsLeb d)
    (h : c ++ r = d ++ s) : c = d := by
  induction hc generalizing d with
  | last hb =>
    cases hd with
    | last hb' =>
      rw [List.cons_append, List.cons_append, List.cons.injEq] at h
      rw [h.1]
    | more hb' hds =>
      rw [List.cons_append, List.cons_append, List.cons.injEq] at h
      rw [h.1] at hb
      exact absurd hb (UInt8.not_lt.mpr hb')
  | more hb hcs ih =>
    cases hd with
    | last hb' =>
      rw [List.cons_append, List.cons_append, List.cons.injEq] at h
      rw [h.1] at hb
      exact absurd hb' (UInt8.not_lt.mpr hb)
    | more hb' hds =>
      rw [List.cons_append, List.cons_append, List.cons.injEq] at h
      rw [h.1, ih hds h.2]

end Wire
