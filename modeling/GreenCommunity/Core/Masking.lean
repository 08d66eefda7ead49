import GreenCommunity.Core.Logging

/-!
# What masking leaves alone

A path leads from the event dictionary to a nested value by keys and indices.
Masking hands down the same function one level deeper until the limit is reached, so
the masked event read along an open path is the masked value found there
(`follow_masked`). From this everything else follows: outlines and scalars are kept,
and a second pass finds nothing left to do.
-/

namespace GreenCommunity.Logging

section

variable {κ α : Type} (keys : Keys κ)

/-! ## Paths into an event -/

inductive Step (κ : Type) where
  | key (k : κ)
  | index (i : Nat)

/-- What `container[step]` finds. -/
def Value.child [DecidableEq κ] : Value κ α → Step κ → Option (Value κ α)
  | .dict items, .key k => (items.find? fun item => item.1 = k).map Prod.snd
  | .list items, .index i => items[i]?
  | .tuple items, .index i => items[i]?
  | _, _ => none

def Value.follow [DecidableEq κ] (value : Value κ α) : List (Step κ) → Option (Value κ α)
  | [] => some value
  | step :: path => (value.child step).bind fun child => child.follow path

def Step.hides : Step κ → Bool
  | .key k => isSensitive keys k
  | .index _ => false

/-- No key on the path is sensitive. -/
def Open (path : List (Step κ)) : Prop := ∀ step ∈ path, step.hides keys = false

theorem follow_append [DecidableEq κ] (value : Value κ α) (path rest : List (Step κ)) :
    value.follow (path ++ rest) = (value.follow path).bind fun v => v.follow rest := by
  induction path generalizing value with
  | nil => rfl
  | cons step path ih =>
      rw [List.cons_append, Value.follow, Value.follow, Option.bind_assoc]
      exact congrArg _ (funext fun child => ih child)

@[simp] theorem follow_single [DecidableEq κ] (value : Value κ α) (step : Step κ) :
    value.follow [step] = value.child step := Option.bind_fun_some _

/-! ## Outlines -/

/-- The same scalar, the same keys in the same order, or as many items; a tuple may
have become a list. -/
inductive SameOutline : Value κ α → Value κ α → Prop
  | scalar (a : Scalar α) : SameOutline (.scalar a) (.scalar a)
  | dict {xs ys : List (κ × Value κ α)} (h : xs.map Prod.fst = ys.map Prod.fst) :
      SameOutline (.dict xs) (.dict ys)
  | list {xs ys : List (Value κ α)} (h : xs.length = ys.length) :
      SameOutline (.list xs) (.list ys)
  | tuple {xs ys : List (Value κ α)} (h : xs.length = ys.length) :
      SameOutline (.tuple xs) (.tuple ys)
  | tupleAsList {xs ys : List (Value κ α)} (h : xs.length = ys.length) :
      SameOutline (.tuple xs) (.list ys)

theorem SameOutline.refl (value : Value κ α) : SameOutline value value := by
  cases value with
  | scalar a => exact .scalar a
  | dict items => exact .dict rfl
  | list items => exact .list rfl
  | tuple items => exact .tuple rfl

/-! ## One level of masking -/

theorem maskValue_beyond {depth : Nat} (h : maxMaskDepth ≤ depth) (value : Value κ α) :
    maskValue keys value depth = value := by
  rw [maskValue.eq_def, if_pos h]

/-- The item of a masked dict. -/
def maskItem (depth : Nat) (item : κ × Value κ α) : κ × Value κ α :=
  (item.1, if isSensitive keys item.1 then mask else maskValue keys item.2 depth)

/-- What masking makes of the child found by a step. -/
def maskChild (step : Step κ) (depth : Nat) (child : Value κ α) : Value κ α :=
  if step.hides keys then mask else maskValue keys child depth

theorem child_maskItems [DecidableEq κ] (items : List (κ × Value κ α)) (depth : Nat)
    (step : Step κ) :
    (Value.dict (items.map (maskItem keys depth))).child step =
      ((Value.dict items).child step).map (maskChild keys step depth) := by
  cases step with
  | index i => rfl
  | key k =>
      show ((items.map (maskItem keys depth)).find? fun item => item.1 = k).map Prod.snd =
        ((items.find? fun item => item.1 = k).map Prod.snd).map
          (maskChild keys (.key k) depth)
      induction items with
      | nil => rfl
      | cons item items ih =>
          by_cases hk : item.1 = k
          · have hmasked : (maskItem keys depth item).1 = k := hk
            rw [List.map_cons, List.find?_cons_of_pos (by simpa using hmasked),
              List.find?_cons_of_pos (by simpa using hk), ← hk]
            rfl
          · simpa [maskItem, hk] using ih

theorem child_maskValue [DecidableEq κ] {depth : Nat} (h : depth < maxMaskDepth)
    (value : Value κ α) (step : Step κ) :
    (maskValue keys value depth).child step =
      (value.child step).map (maskChild keys step (depth + 1)) := by
  cases value with
  | scalar a =>
      rw [maskValue_scalar]
      rfl
  | dict items =>
      rw [maskValue_dict keys h]
      exact child_maskItems keys items (depth + 1) step
  | list items =>
      rw [maskValue_list keys h]
      cases step with
      | key k => rfl
      | index i => exact List.getElem?_map
  | tuple items =>
      rw [maskValue_tuple keys h]
      cases step with
      | key k => rfl
      | index i => exact List.getElem?_map

theorem sameOutline_maskValue (value : Value κ α) (depth : Nat) :
    SameOutline value (maskValue keys value depth) := by
  by_cases h : depth < maxMaskDepth
  · cases value with
    | scalar a =>
        rw [maskValue_scalar]
        exact .scalar a
    | dict items =>
        rw [maskValue_dict keys h]
        exact .dict (by simp)
    | list items =>
        rw [maskValue_list keys h]
        exact .list (by simp)
    | tuple items =>
        rw [maskValue_tuple keys h]
        exact .tupleAsList (by simp)
  · rw [maskValue_beyond keys (Nat.le_of_not_lt h)]
    exact SameOutline.refl value

/-! ## Along a path -/

theorem Open.tail {step : Step κ} {path : List (Step κ)} (h : Open keys (step :: path)) :
    Open keys path := fun other hother => h other (List.mem_cons_of_mem step hother)

theorem Open.head {step : Step κ} {path : List (Step κ)} (h : Open keys (step :: path)) :
    step.hides keys = false := h step List.mem_cons_self

/-- Past the limit the depth still counts, and masking does nothing. -/
theorem follow_maskValue [DecidableEq κ] (value : Value κ α) (depth : Nat)
    {path : List (Step κ)} (hopen : Open keys path) :
    (maskValue keys value depth).follow path =
      (value.follow path).map fun v => maskValue keys v (depth + path.length) := by
  induction path generalizing value depth with
  | nil => rfl
  | cons step path ih =>
      by_cases h : depth < maxMaskDepth
      · have hchild := child_maskValue keys h value step
        have hstep : maskChild (α := α) keys step (depth + 1) =
            fun child => maskValue keys child (depth + 1) := by
          funext child
          rw [maskChild, hopen.head, if_neg Bool.false_ne_true]
        rw [Value.follow, Value.follow, hchild, hstep, Option.bind_map, Option.map_bind]
        refine congrArg _ (funext fun child => ?_)
        show (maskValue keys child (depth + 1)).follow path = _
        rw [ih child (depth + 1) hopen.tail, Function.comp, List.length_cons,
          Nat.add_right_comm depth 1, Nat.add_assoc]
      · have hdepth : maxMaskDepth ≤ depth := Nat.le_of_not_lt h
        have hbeyond : (fun v : Value κ α =>
            maskValue keys v (depth + (step :: path).length)) = id := by
          funext v
          exact maskValue_beyond keys (by omega) v
        rw [maskValue_beyond keys hdepth, hbeyond, Option.map_id, id]

/-- The depth at which masking arrives at the end of a path that leads anywhere. -/
theorem follow_masked [DecidableEq κ] (event : EventDict κ α) {step : Step κ}
    {path : List (Step κ)} (hopen : Open keys (step :: path)) :
    (Value.dict (maskSensitiveData keys event)).follow (step :: path) =
      ((Value.dict event).follow (step :: path)).map fun v =>
        maskValue keys v path.length := by
  have hchild := child_maskItems keys event 0 step
  have hstep : maskChild (α := α) keys step 0 = fun child => maskValue keys child 0 := by
    funext child
    rw [maskChild, hopen.head, if_neg Bool.false_ne_true]
  show ((Value.dict (event.map (maskItem keys 0))).child step).bind _ = _
  rw [Value.follow, hchild, hstep, Option.bind_map, Option.map_bind]
  refine congrArg _ (funext fun child => ?_)
  show (maskValue keys child 0).follow path = _
  rw [follow_maskValue keys child 0 hopen.tail, Nat.zero_add]
  rfl

/-- Under a sensitive key stands the mask, down to the limit. -/
theorem secret_masked [DecidableEq κ] (event : EventDict κ α) {path : List (Step κ)}
    (hopen : Open keys path) {k : κ} (hk : isSensitive keys k = true) :
    (Value.dict (maskSensitiveData keys event)).follow (path ++ [.key k]) =
      ((Value.dict event).follow (path ++ [.key k])).map fun v =>
        if path.length ≤ maxMaskDepth then mask else v := by
  have hides (depth : Nat) : maskChild (α := α) keys (.key k) depth = fun _ => mask := by
    funext child
    rw [maskChild, Step.hides, hk, if_pos rfl]
  cases path with
  | nil =>
      rw [List.nil_append, follow_single, follow_single]
      refine (child_maskItems keys event 0 (.key k)).trans ?_
      rw [hides, List.length_nil]
      simp only [Nat.zero_le, if_true]
  | cons step path =>
      rw [follow_append, follow_append, follow_masked keys event hopen, Option.bind_map,
        Option.map_bind]
      refine congrArg _ (funext fun v => ?_)
      rw [Function.comp, Function.comp, follow_single, follow_single, List.length_cons]
      by_cases h : path.length < maxMaskDepth
      · have hwithin : path.length + 1 ≤ maxMaskDepth := h
        rw [child_maskValue keys h, hides]
        simp only [hwithin, if_true]
      · have hpast : ¬ path.length + 1 ≤ maxMaskDepth := h
        rw [maskValue_beyond keys (Nat.le_of_not_lt h)]
        simp only [hpast, if_false, Option.map_id']

/-! ## Masking twice -/

theorem maskValue_idem {levels depth : Nat} (hlevels : depth + levels = maxMaskDepth)
    (value : Value κ α) :
    maskValue keys (maskValue keys value depth) depth = maskValue keys value depth := by
  induction levels generalizing depth value with
  | zero =>
      obtain rfl : depth = maxMaskDepth := hlevels
      rw [maskValue_limit]
  | succ levels ih =>
      have hdepth : depth < maxMaskDepth := by omega
      have hbelow := ih (show depth + 1 + levels = maxMaskDepth by omega)
      cases value with
      | scalar a => rw [maskValue_scalar, maskValue_scalar]
      | dict items =>
          rw [maskValue_dict keys hdepth, maskValue_dict keys hdepth, List.map_map]
          refine congrArg _ (List.map_congr_left fun x _ => ?_)
          by_cases hk : isSensitive keys x.1 = true
          · simp [hk]
          · simp [hk, hbelow]
      | list items =>
          rw [maskValue_list keys hdepth, maskValue_list keys hdepth, List.map_map]
          exact congrArg _ (List.map_congr_left fun x _ => hbelow x)
      | tuple items =>
          rw [maskValue_tuple keys hdepth, maskValue_list keys hdepth, List.map_map]
          exact congrArg _ (List.map_congr_left fun x _ => hbelow x)

theorem maskSensitiveData_idem (event : EventDict κ α) :
    maskSensitiveData keys (maskSensitiveData keys event) = maskSensitiveData keys event := by
  rw [maskSensitiveData, maskSensitiveData, List.map_map]
  refine List.map_congr_left fun x _ => ?_
  by_cases hk : isSensitive keys x.1 = true
  · simp [hk]
  · simp [hk, maskValue_idem keys (Nat.zero_add maxMaskDepth)]

/-! ## What is lost -/

/-- Masking a second time changes nothing. Along every open path the masked event has
the outline of the event, scalars included, and below such a path only the value of a
sensitive key is replaced. -/
theorem masks_secrets_only [DecidableEq κ] (event : EventDict κ α) :
    maskSensitiveData keys (maskSensitiveData keys event) = maskSensitiveData keys event ∧
      ∀ path, Open keys path →
        Option.Rel SameOutline ((Value.dict event).follow path)
            ((Value.dict (maskSensitiveData keys event)).follow path) ∧
          ∀ k, isSensitive keys k = true →
            (Value.dict (maskSensitiveData keys event)).follow (path ++ [.key k]) =
              ((Value.dict event).follow (path ++ [.key k])).map fun v =>
                if path.length ≤ maxMaskDepth then mask else v := by
  refine ⟨maskSensitiveData_idem keys event, fun path hopen => ⟨?_, ?_⟩⟩
  · cases path with
    | nil =>
        refine Option.Rel.some (.dict ?_)
        simp [maskSensitiveData]
    | cons step path =>
        rw [follow_masked keys event hopen]
        cases (Value.dict event).follow (step :: path) with
        | none => exact Option.Rel.none
        | some v => exact Option.Rel.some (sameOutline_maskValue keys v path.length)
  · intro k hk
    exact secret_masked keys event hopen hk

end

end GreenCommunity.Logging
