/-
# Frames of the wrong shape

What `handleMessage` makes of a frame whose members are not of the kinds it asks for: which
frames let a json exception out of it, and what the resume position is after a frame that
delivers nothing.

* `contained_handleMessage_iff` : the frames that no exception leaves;
* `currentSeq_handleMessage` : the resume position moves with a delivered action only.
-/
import Dwarfkit.ActionStream
import Dwarfkit.Antelope.Serializer.Contained

namespace Dwarfkit

namespace ActionStream

/-- A frame that calls itself an action. -/
def IsAction (msg : Json) : Prop := msg.find "type" = some (.str "action")

/-- The kinds `handleMessage` relies on: the type is a string; the sub sequence of an action
is a number while the client checks it; and the names of an action that passes the check and
has a transaction id are strings. -/
structure KindsFit (c : Client) (msg : Json) : Prop where
  type : msg.TextAt "type"
  subSeq : IsAction msg → ∀ sub expected, msg.find "sub_seq" = some sub →
    c.expectedSubSeq = some expected → sub.isNumber = true
  names : IsAction msg →
    (∀ sub expected, msg.find "sub_seq" = some sub → c.expectedSubSeq = some expected →
      sub.getInt64 = .ok expected) →
    (trxIdOf msg).isSome → msg.TextAt "action" ∧ msg.TextAt "receiver"

/-! ## The parts of a frame -/

theorem contained_getInt64_iff (j : Json) : Contained j.getInt64 ↔ j.isNumber = true := by
  cases j <;> simp [Json.getInt64, Json.getInteger, Json.isNumber]

/-- The sub sequence check throws on a sub sequence that is no number. -/
theorem contained_checkSubSeq_iff (expected : Option ℤ) (msg : Json) :
    Contained (checkSubSeq expected msg) ↔
      ∀ sub e, msg.find "sub_seq" = some sub → expected = some e → sub.isNumber = true := by
  unfold checkSubSeq
  cases hsub : msg.find "sub_seq" with
  | none => simp
  | some sub =>
    cases expected with
    | none => simp
    | some e =>
      have hreturn (received : ℤ) : Contained (if received ≠ e then
          (return .gap e received : Result SubSeqCheck)
          else return .pass (some (received + 1)) (some received)) := by
        split <;> exact contained_ok _
      simp only
      rw [contained_bind_iff, contained_getInt64_iff]
      constructor
      · rintro ⟨hnumber, -⟩ sub' e' hsub' -
        cases hsub'
        exact hnumber
      · intro h
        exact ⟨h sub e rfl rfl, fun received _ => hreturn received⟩

/-- The check is passed unless a sub sequence is there and is not the expected one. -/
theorem checkSubSeq_pass_iff {expected : Option ℤ} {msg : Json}
    (hcontained : Contained (checkSubSeq expected msg)) :
    (∃ e n, checkSubSeq expected msg = .ok (.pass e n)) ↔
      ∀ sub e, msg.find "sub_seq" = some sub → expected = some e → sub.getInt64 = .ok e := by
  unfold checkSubSeq at hcontained ⊢
  cases hsub : msg.find "sub_seq" with
  | none => simp
  | some sub =>
    cases expected with
    | none => simp
    | some e =>
      rw [hsub] at hcontained
      simp only at hcontained ⊢
      -- A number that fails to read cannot happen here: the check is known to be contained.
      cases hreceived : sub.getInt64 with
      | error failure =>
        rw [hreceived, error_bind, contained_error_iff] at hcontained
        cases sub <;> simp [Json.getInt64, Json.getInteger, thrown, err] at hreceived <;>
        · subst hreceived
          exact absurd rfl hcontained
      | ok received =>
        rw [ok_bind]
        by_cases heq : received = e
        · rw [if_neg (not_not.mpr heq)]
          constructor
          · rintro - sub' e' hsub' he'
            cases hsub'
            cases he'
            rw [hreceived, heq]
          · intro _
            exact ⟨_, _, rfl⟩
        · rw [if_pos heq]
          constructor
          · rintro ⟨e', n, hpass⟩
            cases hpass
          · intro h
            have hsame := h sub e rfl rfl
            rw [hreceived] at hsame
            exact absurd (Except.ok.inj hsame) heq

/-- Reading the action throws on a name that is no string. -/
theorem contained_parseAction_iff (p : Platform) {msg : Json} (hobject : msg.isObject = true)
    (trxId : Str) :
    Contained (parseAction p msg trxId) ↔ msg.TextAt "action" ∧ msg.TextAt "receiver" := by
  unfold parseAction
  rw [contained_bind_iff, Json.contained_valueStr_iff]
  constructor
  · rintro ⟨⟨-, haction⟩, hrest⟩
    obtain ⟨action, haction'⟩ := Json.exists_valueStr hobject haction ""
    have hreceiver := (contained_bind_iff.mp (hrest action haction')).1
    exact ⟨haction, ((Json.contained_valueStr_iff _ _ _).mp hreceiver).2⟩
  · rintro ⟨haction, hreceiver⟩
    refine ⟨⟨hobject, haction⟩, fun action _ => ?_⟩
    refine Contained.bind ((Json.contained_valueStr_iff _ _ _).mpr ⟨hobject, hreceiver⟩) ?_
    intro receiver _
    exact Contained.bind (contained_ofHex 32 trxId) (fun _ _ => contained_ok _)

/-- The action part of `handleMessage`. -/
theorem contained_handleAction_iff (p : Platform) (c : Client) {msg : Json}
    (hobject : msg.isObject = true) :
    Contained (handleAction p c msg).2.2 ↔
      (∀ sub e, msg.find "sub_seq" = some sub → c.expectedSubSeq = some e →
        sub.isNumber = true) ∧
      ((∀ sub e, msg.find "sub_seq" = some sub → c.expectedSubSeq = some e →
        sub.getInt64 = .ok e) → (trxIdOf msg).isSome → msg.TextAt "action" ∧ msg.TextAt "receiver") := by
  -- The names are read only if the check passes, which is what the second part is conditional on.
  rw [← contained_checkSubSeq_iff]
  unfold handleAction
  cases hcheck : checkSubSeq c.expectedSubSeq msg with
  | error e =>
    simp only
    constructor
    · intro h
      have hcontained : Contained (checkSubSeq c.expectedSubSeq msg) := by
        rw [hcheck, contained_error_iff]
        exact (contained_error_iff e).mp h
      refine ⟨(contained_error_iff e).mpr ((contained_error_iff e).mp h), fun hpass => ?_⟩
      obtain ⟨expected, n, hok⟩ := (checkSubSeq_pass_iff hcontained).mpr hpass
      rw [hcheck] at hok
      cases hok
    · rintro ⟨h, -⟩
      exact (contained_error_iff e).mpr ((contained_error_iff e).mp h)
  | ok check =>
    have hcontained : Contained (checkSubSeq c.expectedSubSeq msg) := by
      rw [hcheck]
      exact contained_ok _
    rw [← checkSubSeq_pass_iff hcontained]
    cases check with
    | gap expected received =>
      refine ⟨fun _ => ⟨contained_ok _, ?_⟩, fun _ => contained_ok _⟩
      rintro ⟨e, n, hok⟩
      rw [hcheck] at hok
      cases hok
    | pass expected subSeq =>
      simp only
      cases htrx : trxIdOf msg with
      | none => simp
      | some trxId =>
        rw [← contained_parseAction_iff p hobject trxId]
        cases hparse : parseAction p msg trxId with
        | ok action => simp [hparse]
        | error e =>
          simp only [hparse, contained_error_iff, contained_ok, Option.isSome_some, true_and,
            forall_const]
          constructor
          · exact fun h _ => h
          · exact fun h => h ⟨expected, subSeq, hcheck⟩

/-! ## Messages -/

/-- An action, by the type that `handleMessage` reads. -/
theorem isAction_iff {msg : Json} : IsAction msg ↔ msg.valueStr "type" "" = .ok (lit "action") := by
  unfold IsAction
  cases msg with
  | obj members =>
    rw [Json.valueStr_eq_ok]
    constructor
    · exact fun h => .inl h
    · rintro (h | ⟨-, h⟩)
      · exact h
      · exact absurd h (by decide)
  | null | bool _ | int _ | uint _ | float _ | str _ | arr _ =>
    simp [Json.find, Json.valueStr, Json.valueOr, thrown, err]

/-- **No json exception leaves `handleMessage`** exactly if its object, where there is one, has
the kinds that it relies on. -/
theorem contained_handleMessage_iff (p : Platform) (c : Client) (data : Option Json) :
    Contained (handleMessage p c data).2.2 ↔
      ∀ msg, data = some msg → msg.isObject = true → KindsFit c msg := by
  cases data with
  | none => simp [handleMessage]
  | some msg =>
    by_cases hobject : msg.isObject = true
    · have hgoal : (∀ msg', some msg = some msg' → msg'.isObject = true → KindsFit c msg') ↔
          KindsFit c msg :=
        ⟨fun h => h msg rfl hobject, fun h msg' heq _ => by cases heq; exact h⟩
      rw [hgoal]
      unfold handleMessage
      simp only [hobject, Bool.not_true, Bool.false_eq_true, if_false]
      cases htype : msg.valueStr "type" "" with
      -- A `type` of another kind leaves at once, and then the message is no action.
      | error e =>
        have hkind : Contained (msg.valueStr "type" "") ↔ e.kind ≠ .exception := by
          rw [htype, contained_error_iff]
        simp only [contained_error_iff]
        rw [← hkind, Json.contained_valueStr_iff]
        have hother : ¬ IsAction msg := by
          rw [isAction_iff, htype]
          rintro ⟨⟩
        exact ⟨fun h => ⟨h.2, fun h' => absurd h' hother, fun h' => absurd h' hother⟩,
          fun h => ⟨hobject, h.type⟩⟩
      | ok type =>
        have htext : msg.TextAt "type" := by
          refine ((Json.contained_valueStr_iff msg "type" "").mp ?_).2
          rw [htype]
          exact contained_ok _
        by_cases haction : type = lit "action"
        · subst haction
          have hthis : IsAction msg := isAction_iff.mpr htype
          simp only [show lit "action" ≠ lit "heartbeat" by decide,
            show lit "action" ≠ lit "catchup_complete" by decide,
            show lit "action" ≠ lit "error" by decide, if_false, ne_eq, not_true_eq_false]
          rw [contained_handleAction_iff p c hobject]
          exact ⟨fun h => ⟨htext, fun _ => h.1, fun _ => h.2⟩,
            fun h => ⟨h.subSeq hthis, h.names hthis⟩⟩
        · have hother : ¬ IsAction msg := by
            rw [isAction_iff, htype]
            exact fun h => haction (Except.ok.inj h)
          have hfit : KindsFit c msg :=
            ⟨htext, fun h => absurd h hother, fun h => absurd h hother⟩
          refine ⟨fun _ => hfit, fun _ => ?_⟩
          simp only [if_pos haction]
          split_ifs <;> exact contained_ok _
    · have hgoal : ∀ msg', some msg = some msg' → msg'.isObject = true → KindsFit c msg' := by
        rintro msg' heq hobject'
        cases heq
        exact absurd hobject' hobject
      refine ⟨fun _ => hgoal, fun _ => ?_⟩
      unfold handleMessage
      simp [hobject]

/-- Accepting and acknowledging apart, the resume position stays. -/
theorem currentSeq_handleAction (p : Platform) (c : Client) (msg : Json)
    (h : ∀ action, (handleAction p c msg).2.2 ≠ .ok (some action)) :
    (handleAction p c msg).1.currentSeq = c.currentSeq := by
  unfold handleAction at h ⊢
  cases hcheck : checkSubSeq c.expectedSubSeq msg with
  | error e => rfl
  | ok check =>
    rw [hcheck] at h
    cases check with
    | gap expected received => rfl
    | pass expected subSeq =>
      simp only at h ⊢
      cases htrx : trxIdOf msg with
      | none => rfl
      | some trxId =>
        rw [htrx] at h
        simp only at h ⊢
        cases hparse : parseAction p msg trxId with
        | error e => rfl
        | ok action =>
          rw [hparse] at h
          exact absurd rfl (h action)

/-- **The resume position moves with a delivered action only.** -/
theorem currentSeq_handleMessage (p : Platform) (c : Client) (data : Option Json)
    (h : ∀ action, (handleMessage p c data).2.2 ≠ .ok (some action)) :
    (handleMessage p c data).1.currentSeq = c.currentSeq := by
  unfold handleMessage at h ⊢
  cases data with
  | none => rfl
  | some msg =>
    simp only at h ⊢
    split_ifs at h ⊢ with hobject
    · rfl
    · cases htype : msg.valueStr "type" "" with
      | error e => rfl
      | ok type =>
        rw [htype] at h
        simp only at h ⊢
        split_ifs at h ⊢
        · rfl
        · rfl
        · rfl
        · rfl
        · exact currentSeq_handleAction p c msg h

/-- **`handleMessage` returns**, whatever the frame and the state of the stream, exactly if
the frame has the kinds that it relies on; and whenever it delivers no action, the resume
position is unchanged. -/
theorem handleMessage_returns_iff (p : Platform) (c : Client) (data : Option Json) :
    (Contained (handleMessage p c data).2.2 ↔
      ∀ msg, data = some msg → msg.isObject = true → KindsFit c msg) ∧
      ((∀ action, (handleMessage p c data).2.2 ≠ .ok (some action)) →
        (handleMessage p c data).1.currentSeq = c.currentSeq) :=
  ⟨contained_handleMessage_iff p c data, currentSeq_handleMessage p c data⟩

/-- A type that is a number, a sub sequence that is a text and an action name that is a number
each let an exception out of a fresh client. -/
theorem handleMessage_throws :
    ¬ Contained (handleMessage default {} (some (.obj [(lit "type", .uint 5)]))).2.2 ∧
      ¬ Contained (handleMessage default {} (some (.obj [(lit "type", .str "action"),
        (lit "sub_seq", .str "1")]))).2.2 ∧
      ¬ Contained (handleMessage default {} (some (.obj [(lit "type", .str "action"),
        (lit "trx_id", .str "00"), (lit "action", .uint 7)]))).2.2 := by
  refine ⟨?_, ?_, ?_⟩ <;> rintro h <;> exact h _ rfl rfl

end ActionStream

end Dwarfkit
