/-
# The identifiers of the generated header

The names of an ABI become identifiers in three ways: the dots of a class name are removed,
those of a method name become underscores, and the names of members stay as they are.

* `legal_sanitizeIdentifier_iff`, `sanitizeIdentifier_eq_iff` : the names of which a method
  name is legal, and those that have one method name;
* `identifiers_iff` : the ABIs of which all identifiers are legal and apart.
-/
import Dwarfkit.Dkgen.Generator

namespace Dwarfkit

namespace Dkgen

/-! ## Identifiers of C++ -/

/-- The words that the language reserves, its alternative tokens included. -/
def reservedWords : List Str :=
  ["alignas", "alignof", "and", "and_eq", "asm", "auto", "bitand", "bitor", "bool", "break",
    "case", "catch", "char", "char8_t", "char16_t", "char32_t", "class", "compl", "concept",
    "const", "consteval", "constexpr", "constinit", "const_cast", "continue", "co_await",
    "co_return", "co_yield", "decltype", "default", "delete", "do", "double", "dynamic_cast",
    "else", "enum", "explicit", "export", "extern", "false", "float", "for", "friend", "goto",
    "if", "inline", "int", "long", "mutable", "namespace", "new", "noexcept", "not", "not_eq",
    "nullptr", "operator", "or", "or_eq", "private", "protected", "public", "register",
    "reinterpret_cast", "requires", "return", "short", "signed", "sizeof", "static",
    "static_assert", "static_cast", "struct", "switch", "template", "this", "thread_local",
    "throw", "true", "try", "typedef", "typeid", "typename", "union", "unsigned", "using",
    "virtual", "void", "volatile", "wchar_t", "while", "xor", "xor_eq"].map lit

/-- A letter or an underscore. -/
def isIdentifierStart (c : UInt8) : Bool :=
  (97 ≤ c && c ≤ 122) || (65 ≤ c && c ≤ 90) || c = 95

def isDigitChar (c : UInt8) : Bool := 48 ≤ c && c ≤ 57

/-- A letter or an underscore first, then letters, digits and underscores, and no reserved
word. -/
structure LegalIdentifier (text : Str) : Prop where
  start : ∃ c ∈ text.head?, isIdentifierStart c = true
  chars : ∀ c ∈ text, isIdentifierStart c = true ∨ isDigitChar c = true
  unreserved : text ∉ reservedWords

/-- The first character is there, and no digit. -/
def StartsPlain (text : Str) : Prop := ∃ c ∈ text.head?, isDigitChar c = false

/-- The reserved words that are no keywords to the generator. -/
def unlistedWords : List Str := reservedWords.filter (fun word => word ∉ cppKeywords)

theorem cppKeywords_reserved : ∀ word ∈ cppKeywords, word ∈ reservedWords := by
  have hsublist : cppKeywords.isSublist reservedWords = true := by decide +kernel
  exact fun word hword => (List.isSublist_iff_sublist.mp hsublist).subset hword

theorem mem_unlistedWords {text : Str} :
    text ∈ unlistedWords ↔ text ∈ reservedWords ∧ text ∉ cppKeywords := by
  unfold unlistedWords
  rw [List.mem_filter, decide_eq_true_iff]

/-- What reserved words look like: they start with a letter, and end neither in an underscore
nor in `Table`. -/
theorem reservedWords_shape :
    (∀ word ∈ reservedWords, ∃ c ∈ word.head?, isIdentifierStart c = true ∧ c ≠ 95) ∧
    (∀ word ∈ reservedWords, word.getLast? ≠ some 95) ∧
    ∀ word ∈ reservedWords, ¬ lit "Table" <:+ word := by
  decide +kernel

/-- A safe character belongs to an identifier, or is a dot. -/
theorem isSafeChar_iff (c : UInt8) :
    isSafeChar c = true ↔ (isIdentifierStart c = true ∨ isDigitChar c = true) ∨ c = 46 := by
  simp only [isSafeChar, isIdentifierStart, isDigitChar, Bool.or_eq_true, Bool.and_eq_true,
    decide_eq_true_eq]
  tauto

/-- No digit starts an identifier. -/
theorem not_isDigitChar {c : UInt8} (h : isIdentifierStart c = true) : isDigitChar c = false := by
  simp only [isIdentifierStart, Bool.or_eq_true, Bool.and_eq_true, decide_eq_true_eq,
    UInt8.le_iff_toNat_le, ← UInt8.toNat_inj, UInt8.reduceToNat] at h
  simp only [isDigitChar, Bool.and_eq_false_iff, decide_eq_false_iff_not, UInt8.le_iff_toNat_le,
    UInt8.reduceToNat]
  omega

/-- A text of characters of identifiers is one if it starts plain and is not reserved. -/
theorem legalIdentifier_iff {text : Str}
    (h : ∀ c ∈ text, isIdentifierStart c = true ∨ isDigitChar c = true) :
    LegalIdentifier text ↔ StartsPlain text ∧ text ∉ reservedWords := by
  constructor
  · intro hlegal
    obtain ⟨c, hc, hstart⟩ := hlegal.start
    exact ⟨⟨c, hc, not_isDigitChar hstart⟩, hlegal.unreserved⟩
  · rintro ⟨⟨c, hc, hplain⟩, hunreserved⟩
    refine ⟨⟨c, hc, ?_⟩, h, hunreserved⟩
    refine (h c (List.mem_of_mem_head? hc)).resolve_right ?_
    rw [hplain]
    exact Bool.false_ne_true

/-! ## Class and member names -/

/-- A name without its dots. -/
def withoutDots (name : Str) : Str := name.filter (fun c => c ≠ 46)

/-- A safe name becomes a class name. -/
theorem legal_className_iff {name : Str} (h : ∀ c ∈ name, isSafeChar c = true) :
    LegalIdentifier (className name) ↔
      StartsPlain (withoutDots name) ∧ withoutDots name ∉ reservedWords := by
  refine legalIdentifier_iff fun c hc => ?_
  obtain ⟨hmem, hdot⟩ := List.mem_filter.mp hc
  exact ((isSafeChar_iff c).mp (h c hmem)).resolve_right (of_decide_eq_true hdot)

/-- A safe name that is no keyword to the generator is the name of a member. -/
theorem legal_member_iff {name : Str} (h : ∀ c ∈ name, isSafeChar c = true)
    (hkeyword : name ∉ cppKeywords) :
    LegalIdentifier name ↔ 46 ∉ name ∧ StartsPlain name ∧ name ∉ unlistedWords := by
  have hunlisted : name ∉ unlistedWords ↔ name ∉ reservedWords := by
    rw [mem_unlistedWords]
    tauto
  have hchars : (∀ c ∈ name, isIdentifierStart c = true ∨ isDigitChar c = true) ↔ 46 ∉ name := by
    constructor
    · intro hall hdot
      exact absurd (hall 46 hdot) (by decide)
    · intro hdot c hc
      refine ((isSafeChar_iff c).mp (h c hc)).resolve_right ?_
      rintro rfl
      exact hdot hc
  rw [hunlisted]
  constructor
  · intro hlegal
    exact ⟨hchars.mp hlegal.chars, (legalIdentifier_iff hlegal.chars).mp hlegal⟩
  · rintro ⟨hdot, hlegal⟩
    exact (legalIdentifier_iff (hchars.mpr hdot)).mpr hlegal

/-! ## Method names -/

/-- A name with underscores for its dots. -/
def dotsUnderscored (name : Str) : Str := name.map (fun c => if c = 46 then 95 else c)

/-- A name that starts with a digit gets an underscore in front. -/
def guardDigit (rv : Str) : Str :=
  match rv with
  | c :: _ => if 48 ≤ c ∧ c ≤ 57 then 95 :: rv else rv
  | [] => rv

theorem sanitizeIdentifier_eq (name : Str) :
    sanitizeIdentifier name =
      if guardDigit (dotsUnderscored name) ∈ cppKeywords then
        guardDigit (dotsUnderscored name) ++ [95]
      else guardDigit (dotsUnderscored name) := rfl

/-- The guard does nothing, or puts an underscore in front of a digit. -/
theorem guardDigit_cases (rv : Str) :
    guardDigit rv = rv ∧ (rv = [] ∨ StartsPlain rv) ∨
      guardDigit rv = 95 :: rv ∧ ∃ c ∈ rv.head?, isDigitChar c = true := by
  cases rv with
  | nil => exact .inl ⟨rfl, .inl rfl⟩
  | cons c rest =>
    unfold guardDigit
    simp only
    by_cases hdigit : 48 ≤ c ∧ c ≤ 57
    · refine .inr ⟨if_pos hdigit, c, rfl, ?_⟩
      simp [isDigitChar, hdigit]
    · refine .inl ⟨if_neg hdigit, .inr ⟨c, rfl, ?_⟩⟩
      rw [← Bool.not_eq_true]
      simpa [isDigitChar] using hdigit

/-- A safe name is made of characters of identifiers, without its dots. -/
theorem chars_dotsUnderscored {name : Str} (h : ∀ c ∈ name, isSafeChar c = true) :
    ∀ c ∈ dotsUnderscored name, isIdentifierStart c = true ∨ isDigitChar c = true := by
  intro c hc
  obtain ⟨d, hd, rfl⟩ := List.mem_map.mp hc
  by_cases hdot : d = 46
  · rw [if_pos hdot]
    exact .inl (by decide)
  · rw [if_neg hdot]
    exact ((isSafeChar_iff d).mp (h d hd)).resolve_right hdot

theorem dotsUnderscored_eq_nil {name : Str} : dotsUnderscored name = [] ↔ name = [] :=
  List.map_eq_nil_iff

theorem StartsPlain.ne_nil {text : Str} (h : StartsPlain text) : text ≠ [] := by
  obtain ⟨c, hc, -⟩ := h
  rintro rfl
  cases hc

theorem StartsPlain.append {text : Str} (h : StartsPlain text) (rest : Str) :
    StartsPlain (text ++ rest) := by
  obtain ⟨c, hc, hplain⟩ := h
  refine ⟨c, ?_, hplain⟩
  rw [List.head?_append, Option.mem_def.mp hc]
  rfl

/-- A guarded name is no keyword where it got an underscore, and keeps its first character
where it did not. -/
theorem sanitizeIdentifier_cases (name : Str) :
    (sanitizeIdentifier name = dotsUnderscored name ∧ dotsUnderscored name ∉ cppKeywords ∧
        (name = [] ∨ StartsPlain (dotsUnderscored name))) ∨
      (sanitizeIdentifier name = dotsUnderscored name ++ [95] ∧
        dotsUnderscored name ∈ cppKeywords ∧ StartsPlain (dotsUnderscored name)) ∨
      (sanitizeIdentifier name = 95 :: dotsUnderscored name ∧
        ∃ c ∈ (dotsUnderscored name).head?, isDigitChar c = true) := by
  rw [sanitizeIdentifier_eq]
  rcases guardDigit_cases (dotsUnderscored name) with ⟨heq, hstart⟩ | ⟨heq, hdigit⟩
  · rw [heq]
    rw [dotsUnderscored_eq_nil] at hstart
    by_cases hkeyword : dotsUnderscored name ∈ cppKeywords
    · rw [if_pos hkeyword]
      refine .inr (.inl ⟨rfl, hkeyword, hstart.resolve_left ?_⟩)
      rintro rfl
      exact absurd hkeyword (by decide)
    · rw [if_neg hkeyword]
      exact .inl ⟨rfl, hkeyword, hstart⟩
  · have hkeyword : 95 :: dotsUnderscored name ∉ cppKeywords := by
      intro hmem
      obtain ⟨c, hc, -, hne⟩ := reservedWords_shape.1 _ (cppKeywords_reserved _ hmem)
      exact hne (Option.some.inj hc).symm
    rw [heq, if_neg hkeyword]
    exact .inr (.inr ⟨rfl, hdigit⟩)

/-- A method name is made of characters of identifiers. -/
theorem chars_sanitizeIdentifier {name : Str} (h : ∀ c ∈ name, isSafeChar c = true) :
    ∀ c ∈ sanitizeIdentifier name, isIdentifierStart c = true ∨ isDigitChar c = true := by
  have hchars := chars_dotsUnderscored h
  have hunderscore : isIdentifierStart 95 = true ∨ isDigitChar 95 = true := by decide
  rcases sanitizeIdentifier_cases name with ⟨heq, -⟩ | ⟨heq, -⟩ | ⟨heq, -⟩
  · rw [heq]
    exact hchars
  · rw [heq]
    exact List.forall_mem_append.mpr ⟨hchars, List.forall_mem_singleton.mpr hunderscore⟩
  · rw [heq]
    exact List.forall_mem_cons.mpr ⟨hunderscore, hchars⟩

theorem startsPlain_sanitizeIdentifier (name : Str) :
    name = [] ∧ sanitizeIdentifier name = [] ∨ StartsPlain (sanitizeIdentifier name) := by
  rcases sanitizeIdentifier_cases name with ⟨heq, -, hstart⟩ | ⟨heq, -, hstart⟩ | ⟨heq, -⟩
  · rw [heq]
    refine hstart.imp ?_ id
    rintro rfl
    exact ⟨rfl, rfl⟩
  · rw [heq]
    exact .inr (hstart.append _)
  · rw [heq]
    exact .inr ⟨95, rfl, rfl⟩

/-- **The method name of a safe name is legal** exactly if the name is there, and is no reserved
word, with underscores for its dots, that is no keyword to the generator. -/
theorem legal_sanitizeIdentifier_iff {name : Str} (h : ∀ c ∈ name, isSafeChar c = true) :
    LegalIdentifier (sanitizeIdentifier name) ↔
      name ≠ [] ∧ dotsUnderscored name ∉ unlistedWords := by
  rw [legalIdentifier_iff (chars_sanitizeIdentifier h), mem_unlistedWords]
  rcases sanitizeIdentifier_cases name with ⟨heq, hkeyword, hstart⟩ | ⟨heq, hkeyword, hstart⟩ |
    ⟨heq, c, hc, hdigit⟩
  · rw [heq]
    have hne : StartsPlain (dotsUnderscored name) ↔ name ≠ [] := by
      rw [Ne, ← dotsUnderscored_eq_nil]
      refine ⟨StartsPlain.ne_nil, fun hne => hstart.resolve_left ?_⟩
      rwa [← dotsUnderscored_eq_nil]
    rw [hne]
    tauto
  · rw [heq]
    have hne : name ≠ [] := by
      rw [Ne, ← dotsUnderscored_eq_nil]
      exact hstart.ne_nil
    refine iff_of_true ⟨hstart.append _, fun hmem => ?_⟩ ⟨hne, fun hmem => hmem.2 hkeyword⟩
    exact reservedWords_shape.2.1 _ hmem (by simp)
  · rw [heq]
    have hne : name ≠ [] := by
      rintro rfl
      cases hc
    refine iff_of_true ⟨⟨95, rfl, rfl⟩, fun hmem => ?_⟩ ⟨hne, fun hmem => ?_⟩
    · obtain ⟨d, hd, -, hd'⟩ := reservedWords_shape.1 _ hmem
      exact hd' (Option.some.inj hd).symm
    · obtain ⟨d, hd, hd', -⟩ := reservedWords_shape.1 _ hmem.1
      rw [Option.mem_unique hc hd, not_isDigitChar hd'] at hdigit
      cases hdigit

/-- The method name of a table is always legal. -/
theorem legal_tableMethod {name : Str} (h : ∀ c ∈ name, isSafeChar c = true) :
    LegalIdentifier (sanitizeIdentifier name ++ lit "Table") := by
  have hchars : ∀ c ∈ sanitizeIdentifier name ++ lit "Table",
      isIdentifierStart c = true ∨ isDigitChar c = true :=
    List.forall_mem_append.mpr ⟨chars_sanitizeIdentifier h, by decide +kernel⟩
  rw [legalIdentifier_iff hchars]
  refine ⟨?_, fun hmem => reservedWords_shape.2.2 _ hmem (List.suffix_append _ _)⟩
  rcases startsPlain_sanitizeIdentifier name with ⟨-, hnil⟩ | hstart
  · rw [hnil]
    exact ⟨84, rfl, rfl⟩
  · exact hstart.append _

/-! ## Names with one method name -/

/-- The names that become a method name: of no underscores, and not ending in a dot. -/
structure DottedName (name : Str) : Prop where
  safe : ∀ c ∈ name, isSafeChar c = true
  underscore : 95 ∉ name
  last : name.getLast? ≠ some 46

/-- The first name is a dot and the second, which starts with a digit. -/
def DotBefore (a b : Str) : Prop := a = 46 :: b ∧ ∃ c ∈ b.head?, isDigitChar c = true

/-- The dots are regained where no underscores were. -/
theorem dotsUnderscored_inj {a b : Str} (ha : 95 ∉ a) (hb : 95 ∉ b)
    (h : dotsUnderscored a = dotsUnderscored b) : a = b := by
  have hback : ∀ name : Str, 95 ∉ name →
      (dotsUnderscored name).map (fun c => if c = 95 then 46 else c) = name := by
    intro name hname
    apply map_map_cancel
    intro c hc
    have hne : c ≠ 95 := fun heq => hname (heq ▸ hc)
    by_cases hdot : c = 46
    · simp [hdot]
    · simp [hdot, hne]
  rw [← hback a ha, h, hback b hb]

theorem getLast?_dotsUnderscored {name : Str} (h : DottedName name) :
    (dotsUnderscored name).getLast? ≠ some 95 := by
  unfold dotsUnderscored
  rw [List.getLast?_map]
  intro hlast
  obtain ⟨c, hc, hvalue⟩ := Option.map_eq_some_iff.mp hlast
  by_cases hdot : c = 46
  · exact h.last (hdot ▸ hc)
  · rw [if_neg hdot] at hvalue
    exact h.underscore (hvalue ▸ List.mem_of_getLast? hc)

/-- A digit in front of a name is one of its text with underscores. -/
theorem head?_dotsUnderscored {name : Str} :
    (∃ c ∈ (dotsUnderscored name).head?, isDigitChar c = true) ↔
      ∃ c ∈ name.head?, isDigitChar c = true := by
  cases name with
  | nil => rfl
  | cons d rest =>
    unfold dotsUnderscored
    by_cases hdot : d = 46
    · rw [hdot]
      constructor
      · rintro ⟨c, hc, hdigit⟩
        cases hc
        cases hdigit
      · rintro ⟨c, hc, hdigit⟩
        cases hc
        cases hdigit
    · rw [List.map_cons, if_neg hdot]
      rfl

/-- What a guarded name was is known from the method name. -/
theorem guardDigit_of_sanitizeIdentifier {name : Str} (h : DottedName name) :
    guardDigit (dotsUnderscored name) = (sanitizeIdentifier name).rdropWhile (fun c => c = 95) := by
  have hlast : (guardDigit (dotsUnderscored name)).getLast? ≠ some 95 := by
    rcases guardDigit_cases (dotsUnderscored name) with ⟨heq, -⟩ | ⟨heq, c, hc, -⟩
    · rw [heq]
      exact getLast?_dotsUnderscored h
    · rw [heq]
      obtain ⟨rest, hrest⟩ : ∃ rest, dotsUnderscored name = c :: rest := by
        cases hname : dotsUnderscored name with
        | nil =>
          rw [hname] at hc
          cases hc
        | cons d rest =>
          rw [hname] at hc
          exact ⟨rest, by rw [Option.some.inj hc]⟩
      rw [hrest, List.getLast?_cons_cons, ← hrest]
      exact getLast?_dotsUnderscored h
  have hself : (guardDigit (dotsUnderscored name)).rdropWhile (fun c => c = 95) =
      guardDigit (dotsUnderscored name) := by
    rw [List.rdropWhile_eq_self_iff]
    intro hne hend
    exact hlast (by rw [List.getLast?_eq_some_getLast hne, of_decide_eq_true hend])
  rw [sanitizeIdentifier_eq]
  split
  · rw [List.rdropWhile_concat_pos _ _ _ (by decide), hself]
  · rw [hself]

/-- A name in front of which a dot stands gets the same method name as that one. -/
theorem dotBefore_of_guardDigit {a b : Str} (ha : DottedName a) (hb : DottedName b)
    (h : dotsUnderscored a = 95 :: dotsUnderscored b)
    (hdigit : ∃ c ∈ (dotsUnderscored b).head?, isDigitChar c = true) : DotBefore a b := by
  cases a with
  | nil => cases h
  | cons d rest =>
    unfold dotsUnderscored at h
    rw [List.map_cons] at h
    obtain ⟨hhead, htail⟩ := List.cons.inj h
    have hdot : d = 46 := by
      by_contra hne
      rw [if_neg hne] at hhead
      exact ha.underscore (hhead ▸ List.mem_cons_self)
    have hrest : rest = b := by
      refine dotsUnderscored_inj (fun hmem => ha.underscore ?_) hb.underscore htail
      exact List.mem_cons_of_mem _ hmem
    rw [hdot, hrest]
    exact ⟨rfl, head?_dotsUnderscored.mp hdigit⟩

theorem sanitizeIdentifier_of_dotBefore {a b : Str} (h : DotBefore a b) :
    sanitizeIdentifier a = sanitizeIdentifier b := by
  obtain ⟨rfl, hdigit⟩ := h
  have hguard : guardDigit (dotsUnderscored b) = 95 :: dotsUnderscored b := by
    rcases guardDigit_cases (dotsUnderscored b) with ⟨-, hnil | ⟨c, hc, hplain⟩⟩ | ⟨heq, -⟩
    · obtain ⟨c, hc, -⟩ := head?_dotsUnderscored.mpr hdigit
      rw [hnil] at hc
      cases hc
    · obtain ⟨d, hd, hdigit⟩ := head?_dotsUnderscored.mpr hdigit
      rw [Option.mem_unique hd hc, hplain] at hdigit
      cases hdigit
    · exact heq
  have hdot : guardDigit (dotsUnderscored (46 :: b)) = 95 :: dotsUnderscored b := rfl
  rw [sanitizeIdentifier_eq, sanitizeIdentifier_eq, hguard, hdot]

/-- **Two names have one method name** exactly if they are the same, or one is a dot and the
other, which starts with a digit. -/
theorem sanitizeIdentifier_eq_iff {a b : Str} (ha : DottedName a) (hb : DottedName b) :
    sanitizeIdentifier a = sanitizeIdentifier b ↔ a = b ∨ DotBefore a b ∨ DotBefore b a := by
  constructor
  · intro h
    have hguard : guardDigit (dotsUnderscored a) = guardDigit (dotsUnderscored b) := by
      rw [guardDigit_of_sanitizeIdentifier ha, guardDigit_of_sanitizeIdentifier hb, h]
    rcases guardDigit_cases (dotsUnderscored a) with ⟨heq, -⟩ | ⟨heq, hdigit⟩
    · rcases guardDigit_cases (dotsUnderscored b) with ⟨heq', -⟩ | ⟨heq', hdigit'⟩
      · rw [heq, heq'] at hguard
        exact .inl (dotsUnderscored_inj ha.underscore hb.underscore hguard)
      · rw [heq, heq'] at hguard
        exact .inr (.inl (dotBefore_of_guardDigit ha hb hguard hdigit'))
    · rcases guardDigit_cases (dotsUnderscored b) with ⟨heq', -⟩ | ⟨heq', -⟩
      · rw [heq, heq'] at hguard
        exact .inr (.inr (dotBefore_of_guardDigit hb ha hguard.symm hdigit))
      · rw [heq, heq'] at hguard
        exact .inl (dotsUnderscored_inj ha.underscore hb.underscore (List.cons.inj hguard).2)
  · rintro (rfl | h | h)
    · rfl
    · exact sanitizeIdentifier_of_dotBefore h
    · exact (sanitizeIdentifier_of_dotBefore h).symm

/-- The text of a name of the chain. -/
theorem dottedName_toString (name : Name) : DottedName name.toString where
  safe := safe_toString name
  underscore := by
    intro hmem
    obtain ⟨c, hc, heq⟩ := Name.mem_toString hmem
    have hall : ∀ n : Fin 32, (95 : UInt8) ≠ symbolToChar (UInt64.ofNat n) := by
      decide +kernel
    exact hall ⟨c.toNat, hc⟩ (by simpa using heq)
  last := by
    intro hlast
    have hne : name.toString ≠ [] := by
      intro hnil
      rw [hnil] at hlast
      cases hlast
    have hnot := List.rdropWhile_last_not (fun c : UInt8 => decide (c = 46))
      (nameChars name.value 13 64) hne
    rw [List.getLast?_eq_some_getLast hne] at hlast
    exact hnot (decide_eq_true (Option.some.inj hlast))

/-! ## The identifiers of a header -/

/-- The class, base and member identifiers of a declaration. -/
def StructData.identifiers (item : StructData) : List Str :=
  [className item.name] ++ (if item.base = [] then [] else [className item.base]) ++
    item.fields.map (fun field => field.name)

/-- The method of an action. -/
def actionMethod (action : ABI.Action) : Str := sanitizeIdentifier action.name.toString

/-- The method of a table. -/
def tableMethod (table : ABI.Table) : Str := sanitizeIdentifier table.name.toString ++ lit "Table"

/-- The actions that get a helper. -/
def helpedActions (abi : ABI) : List ABI.Action :=
  abi.actions.filter (fun action => isAbiStructOrVariant abi action.type)

/-- What the identifiers of a header should be: legal, and apart for distinct structs and
variants, and for distinct actions and tables. -/
structure IdentifiersFit (abi : ABI) (ordered : List StructData) : Prop where
  declared : ∀ item ∈ ordered, ∀ name ∈ item.identifiers, LegalIdentifier name
  actions : ∀ action ∈ helpedActions abi, LegalIdentifier (actionMethod action)
  tables : ∀ table ∈ abi.tables, LegalIdentifier (tableMethod table)
  classesApart : ∀ a ∈ collectStructs abi, ∀ b ∈ collectStructs abi, a ≠ b →
    className a.name ≠ className b.name
  actionsApart : ∀ a ∈ helpedActions abi, ∀ b ∈ helpedActions abi, a ≠ b →
    actionMethod a ≠ actionMethod b
  tablesApart : ∀ a ∈ abi.tables, ∀ b ∈ abi.tables, a ≠ b → tableMethod a ≠ tableMethod b
  methodsApart : ∀ a ∈ helpedActions abi, ∀ b ∈ abi.tables, actionMethod a ≠ tableMethod b

/-- A declaration that is emitted: the first of its name. -/
def IsFirst (abi : ABI) (item : StructData) : Prop :=
  findByName (collectStructs abi) item.name = some item

/-- The names of an ABI of which the identifiers fit. -/
structure NamesFit (abi : ABI) : Prop where
  classes : ∀ item ∈ collectStructs abi,
    StartsPlain (withoutDots item.name) ∧ withoutDots item.name ∉ reservedWords
  bases : ∀ item, IsFirst abi item → item.base ≠ [] → LegalIdentifier (withoutDots item.base)
  members : ∀ item, IsFirst abi item → ∀ field ∈ item.fields,
    46 ∉ field.name ∧ StartsPlain field.name ∧ field.name ∉ unlistedWords
  actions : ∀ action ∈ helpedActions abi,
    action.name.toString ≠ [] ∧ dotsUnderscored action.name.toString ∉ unlistedWords
  classesApart : ∀ a ∈ collectStructs abi, ∀ b ∈ collectStructs abi, a ≠ b →
    withoutDots a.name ≠ withoutDots b.name
  actionsApart : ∀ a ∈ helpedActions abi, ∀ b ∈ helpedActions abi, a ≠ b →
    a.name ≠ b.name ∧ ¬ DotBefore a.name.toString b.name.toString
  tablesApart : ∀ a ∈ abi.tables, ∀ b ∈ abi.tables, a ≠ b →
    a.name ≠ b.name ∧ ¬ DotBefore a.name.toString b.name.toString

/-- Two names of the chain with one method name. -/
theorem method_eq_iff (a b : Name) :
    sanitizeIdentifier a.toString = sanitizeIdentifier b.toString ↔
      a = b ∨ DotBefore a.toString b.toString ∨ DotBefore b.toString a.toString := by
  rw [sanitizeIdentifier_eq_iff (dottedName_toString a) (dottedName_toString b),
    Name.toString_injective.eq_iff]

/-- Methods of distinct things are apart exactly if their names are. -/
theorem methodsApart_iff {α : Type} (l : List α) (name : α → Name) :
    (∀ a ∈ l, ∀ b ∈ l, a ≠ b →
        sanitizeIdentifier (name a).toString ≠ sanitizeIdentifier (name b).toString) ↔
      ∀ a ∈ l, ∀ b ∈ l, a ≠ b →
        name a ≠ name b ∧ ¬ DotBefore (name a).toString (name b).toString := by
  constructor
  · intro h a ha b hb hne
    have hapart := h a ha b hb hne
    rw [Ne, method_eq_iff] at hapart
    exact ⟨fun heq => hapart (.inl heq), fun hdot => hapart (.inr (.inl hdot))⟩
  · intro h a ha b hb hne
    obtain ⟨hname, hdot⟩ := h a ha b hb hne
    obtain ⟨-, hdot'⟩ := h b hb a ha hne.symm
    rw [Ne, method_eq_iff]
    rintro (heq | heq | heq)
    · exact hname heq
    · exact hdot heq
    · exact hdot' heq

/-- No method of an action has the capital letter of those of tables. -/
theorem actionMethod_ne_tableMethod (action : ABI.Action) (table : ABI.Table) :
    actionMethod action ≠ tableMethod table := by
  intro h
  have hmem : 84 ∈ actionMethod action := by
    rw [h]
    exact List.mem_append_right _ (by decide +kernel)
  have hname : 84 ∉ dotsUnderscored action.name.toString := by
    intro hmem
    obtain ⟨d, hd, hvalue⟩ := List.mem_map.mp hmem
    obtain ⟨c, hc, rfl⟩ := Name.mem_toString hd
    have hall : ∀ n : Fin 32,
        (if symbolToChar (UInt64.ofNat n) = 46 then 95 else symbolToChar (UInt64.ofNat n)) ≠ 84 := by
      decide +kernel
    exact hall ⟨c.toNat, hc⟩ (by simpa using hvalue)
  unfold actionMethod at hmem
  rcases sanitizeIdentifier_cases action.name.toString with ⟨heq, -⟩ | ⟨heq, -⟩ | ⟨heq, -⟩
  · rw [heq] at hmem
    exact hname hmem
  · rw [heq, List.mem_append] at hmem
    exact hmem.elim hname (by decide)
  · rw [heq, List.mem_cons] at hmem
    exact hmem.elim (by decide) hname

/-- A member that is declared is no keyword to the generator. -/
theorem member_notMem_cppKeywords {abi : ABI} {item : StructData} (hitem : item ∈ collectStructs abi)
    {ps : List Piece} (h : declaration abi item = .ok ps) {field : ABI.Field}
    (hfield : field ∈ item.fields) : field.name ∉ cppKeywords := by
  rcases List.mem_append.mp hitem with hmem | hmem
  · obtain ⟨v, -, rfl⟩ := List.mem_map.mp hmem
    cases hfield
  · obtain ⟨s, -, rfl⟩ := List.mem_map.mp hmem
    obtain ⟨members, hmembers, -⟩ := bind_eq_ok.mp h
    obtain ⟨member, -, hmember⟩ := exists_of_mapM hmembers hfield
    unfold fieldDeclaration at hmember
    split at hmember
    · cases hmember
    · assumption

/-- The names of one declaration of which the identifiers are legal. -/
def DeclarationFits (item : StructData) : Prop :=
  (StartsPlain (withoutDots item.name) ∧ withoutDots item.name ∉ reservedWords) ∧
    (item.base ≠ [] → LegalIdentifier (withoutDots item.base)) ∧
    ∀ field ∈ item.fields, 46 ∉ field.name ∧ StartsPlain field.name ∧ field.name ∉ unlistedWords

/-- The identifiers of an emitted declaration are legal exactly if its names fit. -/
theorem legal_identifiers_iff {abi : ABI} (hvalid : Validated abi) {item : StructData}
    (hitem : item ∈ collectStructs abi) {ps : List Piece} (h : declaration abi item = .ok ps) :
    (∀ name ∈ item.identifiers, LegalIdentifier name) ↔ DeclarationFits item := by
  obtain ⟨hname, hfields⟩ := hvalid.collected hitem
  have hmembers : (∀ field ∈ item.fields, LegalIdentifier field.name) ↔
      ∀ field ∈ item.fields,
        46 ∉ field.name ∧ StartsPlain field.name ∧ field.name ∉ unlistedWords :=
    forall₂_congr fun field hfield => legal_member_iff (safe_of_isSafeAbiName (hfields field hfield)).2
      (member_notMem_cppKeywords hitem h hfield)
  have hbase : (∀ name ∈ (if item.base = [] then [] else [className item.base]),
      LegalIdentifier name) ↔ (item.base ≠ [] → LegalIdentifier (withoutDots item.base)) := by
    by_cases hnil : item.base = []
    · simp [hnil]
    · rw [if_neg hnil]
      exact List.forall_mem_singleton.trans ⟨fun h _ => h, fun h => h hnil⟩
  unfold StructData.identifiers DeclarationFits
  rw [List.forall_mem_append, List.forall_mem_append, List.forall_mem_singleton, List.forall_mem_map,
    legal_className_iff (safe_of_isSafeAbiName hname).2, hbase, hmembers, and_assoc]

/-- The identifiers fit exactly if the names do. -/
theorem identifiersFit_iff {abi : ABI} (hvalid : Validated abi) {ordered : List StructData}
    (hordered : orderStructs abi = some ordered) {declarations : List (List Piece)}
    (hdeclarations : ordered.mapM (declaration abi) = .ok declarations) :
    IdentifiersFit abi ordered ↔ NamesFit abi := by
  have hlegal : ∀ item ∈ ordered,
      (∀ name ∈ item.identifiers, LegalIdentifier name) ↔ DeclarationFits item := by
    intro item hitem
    obtain ⟨ps, -, hdeclaration⟩ := exists_of_mapM hdeclarations hitem
    have hcollected := mem_of_findByName ((mem_orderStructs abi hordered item).mp hitem)
    exact legal_identifiers_iff hvalid hcollected hdeclaration
  have hactions : ∀ action : ABI.Action, LegalIdentifier (actionMethod action) ↔
      action.name.toString ≠ [] ∧ dotsUnderscored action.name.toString ∉ unlistedWords :=
    fun action => legal_sanitizeIdentifier_iff (safe_toString action.name)
  -- A method of a table ends in `Table`, which takes nothing from telling the names apart.
  have htables : ∀ a b : ABI.Table, tableMethod a = tableMethod b ↔
      sanitizeIdentifier a.name.toString = sanitizeIdentifier b.name.toString :=
    fun a b => List.append_left_inj _
  constructor
  · intro h
    have hitems : ∀ item, IsFirst abi item → DeclarationFits item := fun item hfirst =>
      (hlegal item ((mem_orderStructs abi hordered item).mpr hfirst)).mp
        (h.declared item ((mem_orderStructs abi hordered item).mpr hfirst))
    exact {
      classes := fun item hitem => by
        obtain ⟨first, hfirst⟩ := exists_findByName hitem
        have hname := name_of_findByName hfirst
        rw [← hname] at hfirst ⊢
        exact (hitems first hfirst).1
      bases := fun item hfirst => (hitems item hfirst).2.1
      members := fun item hfirst => (hitems item hfirst).2.2
      actions := fun action haction => (hactions action).mp (h.actions action haction)
      classesApart := h.classesApart
      actionsApart := (methodsApart_iff (helpedActions abi) ABI.Action.name).mp h.actionsApart
      tablesApart := (methodsApart_iff abi.tables ABI.Table.name).mp fun a ha b hb hne =>
        mt (htables a b).mpr (h.tablesApart a ha b hb hne) }
  · intro h
    exact {
      declared := fun item hitem => by
        have hfirst := (mem_orderStructs abi hordered item).mp hitem
        exact (hlegal item hitem).mpr
          ⟨h.classes item (mem_of_findByName hfirst), h.bases item hfirst, h.members item hfirst⟩
      actions := fun action haction => (hactions action).mpr (h.actions action haction)
      tables := fun table _ => legal_tableMethod (safe_toString table.name)
      classesApart := h.classesApart
      actionsApart := (methodsApart_iff (helpedActions abi) ABI.Action.name).mpr h.actionsApart
      tablesApart := fun a ha b hb hne => mt (htables a b).mp
        ((methodsApart_iff abi.tables ABI.Table.name).mpr h.tablesApart a ha b hb hne)
      methodsApart := fun action _ table _ => actionMethod_ne_tableMethod action table }

/-! ## Where they are emitted -/

/-- The identifiers of a declaration stand in it. -/
theorem identifiers_mem_declaration {abi : ABI} {item : StructData} {ps : List Piece}
    (hitem : item ∈ collectStructs abi) (h : declaration abi item = .ok ps) :
    ∀ name ∈ item.identifiers, Piece.derived name ∈ ps := by
  rcases List.mem_append.mp hitem with hmem | hmem
  · obtain ⟨v, -, rfl⟩ := List.mem_map.mp hmem
    obtain ⟨types, -, h⟩ := bind_eq_ok.mp h
    cases h
    intro name hname
    have hname : name = className v.name := by
      simpa [StructData.identifiers, StructData.ofVariant] using hname
    rw [hname]
    simp [StructData.ofVariant]
  · obtain ⟨s, -, rfl⟩ := List.mem_map.mp hmem
    obtain ⟨members, hmembers, h⟩ := bind_eq_ok.mp h
    cases h
    intro name hname
    unfold StructData.identifiers at hname
    rw [List.mem_append, List.mem_append, List.mem_singleton] at hname
    -- The class itself, its base if it has one, and its members.
    rcases hname with (rfl | hbase) | hfield
    · simp
    · by_cases hnil : (StructData.ofStruct s).base = []
      · rw [if_pos hnil] at hbase
        cases hbase
      · rw [if_neg hnil, List.mem_singleton] at hbase
        simp [hbase, hnil]
    · obtain ⟨field, hmem, rfl⟩ := List.mem_map.mp hfield
      obtain ⟨member, hmember, hdeclaration⟩ := exists_of_mapM hmembers hmem
      have hpiece : Piece.derived field.name ∈ member := by
        unfold fieldDeclaration at hdeclaration
        split at hdeclaration
        · cases hdeclaration
        · obtain ⟨cpp, -, hdeclaration⟩ := bind_eq_ok.mp hdeclaration
          cases hdeclaration
          simp
      have hflat : Piece.derived field.name ∈ members.flatten :=
        List.mem_flatten_of_mem hmember hpiece
      simp only [List.mem_append]
      exact .inl (.inl (.inr hflat))

/-- **The identifiers stand in the header**, and so do the methods; those of tables get their
ending from the generator. -/
theorem identifiers_emitted {abi : ABI} {contractName namespaceName : Str} {out : List Piece}
    (h : run abi contractName namespaceName = .ok out) {ordered : List StructData}
    (hordered : orderStructs abi = some ordered) :
    (∀ item ∈ ordered, ∀ name ∈ item.identifiers, Piece.derived name ∈ out) ∧
      (∀ action ∈ helpedActions abi, Piece.derived (actionMethod action) ∈ out) ∧
      ∀ table ∈ abi.tables,
        [.derived (sanitizeIdentifier table.name.toString), code "Table"] <:+: out := by
  obtain ⟨hvalid, ordered', declarations, hordered', hdeclarations, rfl⟩ := run_eq_ok h
  obtain rfl := Option.some.inj (hordered.symm.trans hordered')
  refine ⟨?_, ?_, ?_⟩
  · intro item hitem name hname
    obtain ⟨ps, hps, hdeclaration⟩ := exists_of_mapM hdeclarations hitem
    have hcollected := mem_of_findByName ((mem_orderStructs abi hordered item).mp hitem)
    have hmem := identifiers_mem_declaration hcollected hdeclaration name hname
    exact List.mem_append_left _ (List.mem_append_right _ (List.mem_flatten_of_mem hps hmem))
  · intro action haction
    obtain ⟨hmem, hdeclared⟩ := List.mem_filter.mp haction
    refine List.mem_append_right _ ?_
    unfold epilogue
    refine List.mem_append_left _ (List.mem_append_left _ (List.mem_append_right _ ?_))
    refine List.mem_flatMap.mpr ⟨action, hmem, ?_⟩
    unfold actionHelper
    rw [if_pos hdeclared]
    simp [actionMethod]
  · intro table htable
    -- The name and its ending are two pieces, so they are looked for as neighbours.
    have haccessor : [Piece.derived (sanitizeIdentifier table.name.toString), code "Table"] <:+:
        tableAccessor table :=
      ⟨[code "\n", code "    Result<dwarfkit::Table> "], _, rfl⟩
    have hflat : tableAccessor table <:+: abi.tables.flatMap tableAccessor := by
      rw [List.flatMap_def]
      exact List.infix_of_mem_flatten (List.mem_map_of_mem htable)
    have hepilogue : abi.tables.flatMap tableAccessor <:+:
        epilogue abi contractName (namespaceOf contractName namespaceName) := by
      unfold epilogue
      exact ⟨_, _, rfl⟩
    exact haccessor.trans (hflat.trans (hepilogue.trans (List.suffix_append _ _).isInfix))

/-- **Identifiers.**  The identifiers of a header that is generated are legal, and apart for
distinct structs and variants, actions and tables, exactly if the names of the ABI fit. -/
theorem identifiers_iff {abi : ABI} {contractName namespaceName : Str} {out : List Piece}
    (h : run abi contractName namespaceName = .ok out) :
    ∃ ordered, orderStructs abi = some ordered ∧
      (∀ item ∈ ordered, ∀ name ∈ item.identifiers, Piece.derived name ∈ out) ∧
      (∀ action ∈ helpedActions abi, Piece.derived (actionMethod action) ∈ out) ∧
      (∀ table ∈ abi.tables,
        [.derived (sanitizeIdentifier table.name.toString), code "Table"] <:+: out) ∧
      (IdentifiersFit abi ordered ↔ NamesFit abi) := by
  obtain ⟨hvalid, ordered, declarations, hordered, hdeclarations, -⟩ := run_eq_ok h
  obtain ⟨hdeclared, hactions, htables⟩ := identifiers_emitted h hordered
  exact ⟨ordered, hordered, hdeclared, hactions, htables,
    identifiersFit_iff hvalid hordered hdeclarations⟩

theorem collectStructs_derivedAbi : collectStructs derivedAbi =
    [{ name := "a", base := "b", fields := [⟨"x", "name"⟩] }, { name := "b" }] := rfl

/-- No word of one character is reserved. -/
theorem singleton_notMem_reservedWords (c : UInt8) : [c] ∉ reservedWords := by
  have hlong : reservedWords.all (fun word => 2 ≤ word.length) = true := by decide +kernel
  intro hmem
  have hlen := of_decide_eq_true (List.all_eq_true.mp hlong _ hmem)
  simp at hlen

theorem namesFit_derivedAbi : NamesFit derivedAbi where
  classes := by
    rw [collectStructs_derivedAbi, List.forall_mem_cons, List.forall_mem_singleton]
    exact ⟨⟨⟨97, rfl, rfl⟩, singleton_notMem_reservedWords 97⟩, ⟨98, rfl, rfl⟩,
      singleton_notMem_reservedWords 98⟩
  bases item hfirst hbase := by
    have hmem := mem_of_findByName hfirst
    rw [collectStructs_derivedAbi, List.mem_cons, List.mem_singleton] at hmem
    rcases hmem with rfl | rfl
    · exact ⟨⟨98, rfl, rfl⟩, by decide +kernel, singleton_notMem_reservedWords 98⟩
    · exact absurd rfl hbase
  members item hfirst field hfield := by
    have hmem := mem_of_findByName hfirst
    rw [collectStructs_derivedAbi, List.mem_cons, List.mem_singleton] at hmem
    rcases hmem with rfl | rfl
    · obtain rfl := List.mem_singleton.mp hfield
      exact ⟨by decide, ⟨120, rfl, rfl⟩,
        fun hmem => singleton_notMem_reservedWords 120 (mem_unlistedWords.mp hmem).1⟩
    · cases hfield
  actions := by
    intro action haction
    cases haction
  classesApart := by
    rw [collectStructs_derivedAbi]
    decide +kernel
  actionsApart := by
    intro a ha
    cases ha
  tablesApart := by
    intro a ha
    cases ha

/-- A struct with a base: its identifiers are legal and apart. -/
theorem identifiers_iff_derivedAbi :
    ∃ out ordered, run derivedAbi "eosio" [] = .ok out ∧ orderStructs derivedAbi = some ordered ∧
      IdentifiersFit derivedAbi ordered := by
  have hsome : (run derivedAbi "eosio" []).toOption.isSome = true := by decide +kernel
  cases hout : run derivedAbi "eosio" [] with
  | error e =>
    rw [hout] at hsome
    cases hsome
  | ok out =>
    obtain ⟨ordered, hordered, -, -, -, hiff⟩ := identifiers_iff hout
    exact ⟨out, ordered, rfl, hordered, hiff.mpr namesFit_derivedAbi⟩

/-- Two structs whose names are the same without dots. -/
def dottedAbi : ABI where
  structs := [{ name := "a.b", base := [], fields := [] },
    { name := "ab", base := [], fields := [⟨"x.y", "name"⟩] }]

/-- Both are declared under one class name, the second with a dot in the name of its
member. -/
theorem not_identifiers_fit :
    (run dottedAbi "eosio" []).toOption.isSome = true ∧
      ∀ ordered, orderStructs dottedAbi = some ordered → ¬ IdentifiersFit dottedAbi ordered := by
  refine ⟨by decide +kernel, fun ordered _ hfit => ?_⟩
  refine hfit.classesApart { name := "a.b" } ?_ { name := "ab", fields := [⟨"x.y", "name"⟩] } ?_ ?_ ?_
  · decide +kernel
  · decide +kernel
  · decide +kernel
  · decide +kernel

end Dkgen

end Dwarfkit
