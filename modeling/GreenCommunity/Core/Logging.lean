import GreenCommunity.Base.Text
import Mathlib.Data.List.Forall2

/-!
# Masking of log events

`mask_sensitive_data` is the last processor of the logging chain: it replaces what
stands under a sensitive key by `***`, in the event dictionary and in the containers
nested in it.  The recursion stops at a depth limit and hands back what it finds
there as it is, so a secret nested deeper than the limit reaches the log.

`masks_alike_iff` says for two events that differ in secrets only when their masked
forms are equal.  Python's `str` of a key and `str.lower` are the parameters `Keys`.
-/

namespace GreenCommunity.Logging

/-! ## Values -/

/-- A leaf of a logged value: a string, or anything else that is no container. -/
inductive Scalar (α : Type) where
  | text (s : String)
  | other (a : α)
  deriving DecidableEq

/-- What can be logged. A dict is its items in insertion order. -/
inductive Value (κ α : Type) where
  | scalar (a : Scalar α)
  | dict (items : List (κ × Value κ α))
  | list (items : List (Value κ α))
  | tuple (items : List (Value κ α))

abbrev EventDict (κ α : Type) := List (κ × Value κ α)

/-- `str(key)` and `str.lower`. -/
structure Keys (κ : Type) where
  str : κ → String
  lower : String → String

/-! ## `logging_config.py` -/

def sensitiveKeyParts : List String :=
  ["password", "secret", "token", "authorization", "cookie", "api_key", "apikey"]

/-- `part in text` for Python strings. -/
def occursIn (part text : String) : Bool :=
  text.toList.tails.any fun rest => part.toList.isPrefixOf rest

def maxMaskDepth : Nat := 6

section

variable {κ α : Type} (keys : Keys κ)

/-- `MASK`. -/
def mask : Value κ α := .scalar (.text "***")

/-- `_is_sensitive(str(key))`. -/
def isSensitive (key : κ) : Bool :=
  let lowered := keys.lower (keys.str key)
  sensitiveKeyParts.any fun part => occursIn part lowered

/-- `_mask_value`. -/
def maskValue (value : Value κ α) (depth : Nat) : Value κ α :=
  if depth ≥ maxMaskDepth then
    value
  else
    match value with
    | .dict items =>
        .dict (items.map fun (k, v) =>
          (k, if isSensitive keys k then mask else maskValue v (depth + 1)))
    | .list items => .list (items.map fun item => maskValue item (depth + 1))
    | .tuple items => .list (items.map fun item => maskValue item (depth + 1))
    | .scalar a => .scalar a
termination_by maxMaskDepth - depth

/-- `mask_sensitive_data`. -/
def maskSensitiveData (eventDict : EventDict κ α) : EventDict κ α :=
  eventDict.map fun (key, value) =>
    (key, if isSensitive keys key then mask else maskValue keys value 0)

/-! ## Events that differ in secrets only -/

mutual

/-- Same shape and same values, except under sensitive keys. -/
inductive Alike : Value κ α → Value κ α → Prop
  | scalar (a : Scalar α) : Alike (.scalar a) (.scalar a)
  | dict {xs ys : List (κ × Value κ α)} (h : AlikeDicts xs ys) : Alike (.dict xs) (.dict ys)
  | list {xs ys : List (Value κ α)} (h : AlikeItems xs ys) : Alike (.list xs) (.list ys)
  | tuple {xs ys : List (Value κ α)} (h : AlikeItems xs ys) : Alike (.tuple xs) (.tuple ys)

/-- The same keys in the same order, with values alike under the ordinary ones. -/
inductive AlikeDicts : List (κ × Value κ α) → List (κ × Value κ α) → Prop
  | nil : AlikeDicts [] []
  | secret {k : κ} {xs ys : List (κ × Value κ α)} (v w : Value κ α)
      (hk : isSensitive keys k = true) (h : AlikeDicts xs ys) :
      AlikeDicts ((k, v) :: xs) ((k, w) :: ys)
  | plain {k : κ} {v w : Value κ α} {xs ys : List (κ × Value κ α)}
      (hv : Alike v w) (h : AlikeDicts xs ys) :
      AlikeDicts ((k, v) :: xs) ((k, w) :: ys)

inductive AlikeItems : List (Value κ α) → List (Value κ α) → Prop
  | nil : AlikeItems [] []
  | cons {v w : Value κ α} {xs ys : List (Value κ α)}
      (hv : Alike v w) (h : AlikeItems xs ys) : AlikeItems (v :: xs) (w :: ys)

end

theorem alikeItems_iff {xs ys : List (Value κ α)} :
    AlikeItems keys xs ys ↔ List.Forall₂ (Alike keys) xs ys := by
  constructor
  · intro h
    induction xs generalizing ys with
    | nil => cases h; exact List.Forall₂.nil
    | cons v xs ih =>
        cases h with
        | cons hv h => exact List.Forall₂.cons hv (ih h)
  · intro h
    induction h with
    | nil => exact AlikeItems.nil
    | cons hv _ ih => exact AlikeItems.cons hv ih

theorem alikeDicts_iff {xs ys : List (κ × Value κ α)} :
    AlikeDicts keys xs ys ↔
      List.Forall₂ (fun x y => x.1 = y.1 ∧ (isSensitive keys x.1 = true ∨ Alike keys x.2 y.2))
        xs ys := by
  constructor
  · intro h
    induction xs generalizing ys with
    | nil => cases h; exact List.Forall₂.nil
    | cons x xs ih =>
        cases h with
        | secret v w hk h => exact List.Forall₂.cons ⟨rfl, Or.inl hk⟩ (ih h)
        | plain hv h => exact List.Forall₂.cons ⟨rfl, Or.inr hv⟩ (ih h)
  · intro h
    induction h with
    | nil => exact AlikeDicts.nil
    | @cons x y xs ys hxy _ ih =>
        obtain ⟨k, v⟩ := x
        obtain ⟨k', w⟩ := y
        obtain ⟨rfl, hk | hv⟩ := hxy
        · exact AlikeDicts.secret v w hk ih
        · exact AlikeDicts.plain hv ih

/-! ## What the depth limit lets through -/

/-- The secrets in which two values differ are all masked `levels` levels deep or
less: cut there, nothing is left in which they differ. -/
def MaskedWithin : Nat → Value κ α → Value κ α → Prop
  | 0, v, w => v = w
  | levels + 1, .dict xs, .dict ys =>
      List.Forall₂
        (fun x y => isSensitive keys x.1 = true ∨ MaskedWithin levels x.2 y.2) xs ys
  | levels + 1, .list xs, .list ys => List.Forall₂ (MaskedWithin levels) xs ys
  | levels + 1, .tuple xs, .tuple ys => List.Forall₂ (MaskedWithin levels) xs ys
  | _ + 1, _, _ => True

/-- The same for two event dictionaries, whose own keys are outside the limit. -/
def SecretsMasked (event other : EventDict κ α) : Prop :=
  List.Forall₂
    (fun x y => isSensitive keys x.1 = true ∨ MaskedWithin keys maxMaskDepth x.2 y.2)
    event other

/-! ### One level of masking -/

theorem maskValue_limit (v : Value κ α) : maskValue keys v maxMaskDepth = v := by
  rw [maskValue.eq_def, if_pos (Nat.le_refl _)]

theorem maskValue_scalar (a : Scalar α) (depth : Nat) :
    maskValue keys (.scalar a) depth = .scalar a := by
  unfold maskValue
  split <;> rfl

theorem maskValue_dict {depth : Nat} (h : depth < maxMaskDepth)
    (items : List (κ × Value κ α)) :
    maskValue keys (.dict items) depth =
      .dict (items.map fun x =>
        (x.1, if isSensitive keys x.1 then mask else maskValue keys x.2 (depth + 1))) := by
  rw [maskValue, if_neg (Nat.not_le.mpr h)]

theorem maskValue_list {depth : Nat} (h : depth < maxMaskDepth) (items : List (Value κ α)) :
    maskValue keys (.list items) depth =
      .list (items.map fun item => maskValue keys item (depth + 1)) := by
  rw [maskValue, if_neg (Nat.not_le.mpr h)]

theorem maskValue_tuple {depth : Nat} (h : depth < maxMaskDepth)
    (items : List (Value κ α)) :
    maskValue keys (.tuple items) depth =
      .list (items.map fun item => maskValue keys item (depth + 1)) := by
  rw [maskValue, if_neg (Nat.not_le.mpr h)]

/-! ### Item by item -/

omit keys in
private theorem map_eq_map_iff {β γ δ : Type} {f : β → δ} {g : γ → δ} {xs : List β}
    {ys : List γ} :
    xs.map f = ys.map g ↔ List.Forall₂ (fun x y => f x = g y) xs ys := by
  rw [← List.forall₂_eq_eq_eq, List.forall₂_map_left_iff, List.forall₂_map_right_iff]

omit keys in
/-- Two relations that agree on related items agree on related lists. -/
private theorem forall₂_congr {β γ : Type} {R P Q : β → γ → Prop} {xs : List β} {ys : List γ}
    (h : List.Forall₂ R xs ys) (hPQ : ∀ x y, R x y → (P x y ↔ Q x y)) :
    List.Forall₂ P xs ys ↔ List.Forall₂ Q xs ys := by
  induction h with
  | nil => exact ⟨fun _ => List.Forall₂.nil, fun _ => List.Forall₂.nil⟩
  | cons hxy _ ih => rw [List.forall₂_cons, List.forall₂_cons, hPQ _ _ hxy, ih]

/-- Masked items are equal if the key hides them or the masked values are. -/
private theorem masked_item_iff (f : Value κ α → Value κ α) {x y : κ × Value κ α}
    (hkey : x.1 = y.1) :
    ((x.1, if isSensitive keys x.1 then mask else f x.2) =
        (y.1, if isSensitive keys y.1 then mask else f y.2)) ↔
      isSensitive keys x.1 = true ∨ f x.2 = f y.2 := by
  rw [Prod.mk.injEq, ← hkey]
  by_cases hk : isSensitive keys x.1 = true
  · simp [hk]
  · simp [hk]

/-- Values alike up to secrets are masked to the same exactly if their secrets are
masked within the levels that are left. Induction on these levels. -/
theorem maskValue_eq_iff {levels depth : Nat} (hlevels : depth + levels = maxMaskDepth)
    {v w : Value κ α} (h : Alike keys v w) :
    maskValue keys v depth = maskValue keys w depth ↔ MaskedWithin keys levels v w := by
  induction levels generalizing depth v w with
  | zero =>
      obtain rfl : depth = maxMaskDepth := by omega
      rw [maskValue_limit, maskValue_limit, MaskedWithin]
  | succ levels ih =>
      have hdepth : depth < maxMaskDepth := by omega
      have hbelow := fun x y (hxy : Alike keys x y) =>
        ih (show depth + 1 + levels = maxMaskDepth by omega) hxy
      cases h with
      | scalar a =>
          rw [MaskedWithin]
          · exact iff_true_intro rfl
          all_goals intros; contradiction
      | dict hitems =>
          rw [maskValue_dict keys hdepth, maskValue_dict keys hdepth, MaskedWithin,
            Value.dict.injEq, map_eq_map_iff]
          refine forall₂_congr ((alikeDicts_iff keys).mp hitems) ?_
          rintro x y ⟨hkey, hxy⟩
          rw [masked_item_iff keys (fun v => maskValue keys v (depth + 1)) hkey]
          by_cases hk : isSensitive keys x.1 = true
          · exact ⟨fun _ => Or.inl hk, fun _ => Or.inl hk⟩
          · rw [hbelow _ _ (hxy.resolve_left hk)]
      | list hitems =>
          rw [maskValue_list keys hdepth, maskValue_list keys hdepth, MaskedWithin,
            Value.list.injEq, map_eq_map_iff]
          exact forall₂_congr ((alikeItems_iff keys).mp hitems) hbelow
      | tuple hitems =>
          rw [maskValue_tuple keys hdepth, maskValue_tuple keys hdepth, MaskedWithin,
            Value.list.injEq, map_eq_map_iff]
          exact forall₂_congr ((alikeItems_iff keys).mp hitems) hbelow

/-- Two events that differ in secrets only are logged alike exactly if no secret in
which they differ lies in containers nested beyond the depth limit. -/
theorem masks_alike_iff {event other : EventDict κ α} (h : AlikeDicts keys event other) :
    maskSensitiveData keys event = maskSensitiveData keys other ↔
      SecretsMasked keys event other := by
  rw [maskSensitiveData, maskSensitiveData, map_eq_map_iff]
  refine forall₂_congr ((alikeDicts_iff keys).mp h) ?_
  rintro x y ⟨hkey, hxy⟩
  refine (masked_item_iff keys (fun v => maskValue keys v 0) hkey).trans ?_
  by_cases hk : isSensitive keys x.1 = true
  · exact ⟨fun _ => Or.inl hk, fun _ => Or.inl hk⟩
  · rw [maskValue_eq_iff keys (Nat.zero_add maxMaskDepth) (hxy.resolve_left hk)]

end

/-! ## A secret below the limit -/

/-- String keys written without capitals. -/
def plainKeys : Keys String where
  str := id
  lower := id

/-- `{"level": {"level": … {"password": secret}}}`, the inner dict in seven others. -/
def nestedEvent (secret : String) : EventDict String Unit :=
  let value (v : Value String Unit) : Value String Unit := .dict [("level", v)]
  [("level", value (value (value (value (value (value
    (.dict [("password", .scalar (.text secret))])))))))]

private theorem password_sensitive : isSensitive plainKeys "password" = true := by decide

private theorem level_ordinary : isSensitive plainKeys "level" = false := by decide

/-- Wrapping alike values keeps them alike. -/
private theorem alike_level {v w : Value String Unit} (h : Alike plainKeys v w) :
    Alike plainKeys (.dict [("level", v)]) (.dict [("level", w)]) :=
  Alike.dict (AlikeDicts.plain h AlikeDicts.nil)

private theorem nestedEvent_alike (secret other : String) :
    AlikeDicts plainKeys (nestedEvent secret) (nestedEvent other) := by
  refine AlikeDicts.plain ?_ AlikeDicts.nil
  repeat apply alike_level
  exact Alike.dict (AlikeDicts.secret _ _ password_sensitive AlikeDicts.nil)

private theorem nestedEvent_masked (secret : String) :
    maskSensitiveData plainKeys (nestedEvent secret) = nestedEvent secret := by
  simp [nestedEvent, maskSensitiveData, maskValue, maxMaskDepth, level_ordinary]

/-- Two passwords nested that deep are logged as they are. -/
theorem deep_secrets_logged :
    ¬ ∀ event other : EventDict String Unit, AlikeDicts plainKeys event other →
        maskSensitiveData plainKeys event = maskSensitiveData plainKeys other := by
  intro h
  have hsame := h _ _ (nestedEvent_alike "secret" "hunter2")
  rw [nestedEvent_masked, nestedEvent_masked] at hsame
  simp [nestedEvent] at hsame

/-- The password of a request body is masked: nothing tells these two events apart. -/
theorem masks_alike_iff_sample :
    AlikeDicts plainKeys
        [("body", (.dict [("password", .scalar (.text "secret"))] : Value String Unit))]
        [("body", .dict [("password", .scalar (.text "hunter2"))])] ∧
      (maskSensitiveData plainKeys
            [("body", (.dict [("password", .scalar (.text "secret"))] : Value String Unit))] =
          maskSensitiveData plainKeys
            [("body", .dict [("password", .scalar (.text "hunter2"))])] ↔
        SecretsMasked plainKeys
            [("body", (.dict [("password", .scalar (.text "secret"))] : Value String Unit))]
            [("body", .dict [("password", .scalar (.text "hunter2"))])]) :=
  have halike := AlikeDicts.plain (k := "body")
    (Alike.dict (AlikeDicts.secret _ _ password_sensitive AlikeDicts.nil)) AlikeDicts.nil
  ⟨halike, masks_alike_iff plainKeys halike⟩

end GreenCommunity.Logging
