import GreenCommunity.Board.Filing

/-!
# Mentions

A mentioned nickname is searched with `LIKE`, among the nicknames that contain it, and
only five rows come back, in no order.  Python then compares for equality.  So a mention
of an existing user can fail because of other users, whose nicknames contain this one,
and because of the characters that mean something in a pattern.
-/

namespace GreenCommunity.Board

open GreenCommunity.Base
open GreenCommunity.Base.Prog
open GreenCommunity.Infrastructure (Collation)

/-- The nickname that a word mentions. -/
def mention (word : String) : Option String :=
  match word.toList with
  | '@' :: char :: chars => some (String.ofList (char :: chars))
  | _ => none

/-- The nicknames that a text mentions. -/
def mentions (text : String) : List String := (splitWords text).filterMap mention

def Named (t : Tables) (userNickname : String) : Prop :=
  ∃ user ∈ t.users, user.userNickname = userNickname

/-- As a pattern the nickname matches itself, and those of fewer than five others. -/
def Findable (coll : Collation) (t : Tables) (userNickname : String) : Prop :=
  coll.contains userNickname userNickname = true ∧
    (t.users.countP fun user =>
      coll.contains user.userNickname userNickname && user.userNickname != userNickname) < 5

section Mentions

variable {C : Type} [DecidableEq C] {coll : Collation} {c : C} {t : Tables} {s : State C}
  {userNickname : String}

theorem validateWord_eq (word : String) :
    CommentService.validateWord word =
      (mention word).elim (ret ()) CommentService.ensureMentioned := by
  unfold CommentService.validateWord mention
  generalize word.toList = chars
  split <;> simp_all

/-- Words that are no mentions do not matter. -/
theorem validateMentions_eq (text : String) :
    CommentService.validateMentions text =
      (mentions text).forM CommentService.ensureMentioned := by
  unfold CommentService.validateMentions mentions
  induction splitWords text with
  | nil => rfl
  | cons word words ih =>
      show (CommentService.validateWord word >>= fun _ =>
        words.forM CommentService.validateWord) = _
      rw [ih, validateWord_eq]
      cases hword : mention word with
      | none => rw [List.filterMap_cons_none hword]; rfl
      | some userNickname => rw [List.filterMap_cons_some hword]; rfl

/-- Every answer of the search has the user. -/
theorem found_iff :
    (∀ rows : List User, Query.answers coll t (.usersNamed userNickname) rows →
        ∃ user ∈ rows, (user.userNickname == userNickname) = true) ↔
      Named t userNickname ∧ Findable coll t userNickname := by
  have hlimit := @exists_mem_take_iff User (fun user => user.userNickname == userNickname)
    (t.users.filter fun row => coll.contains row.userNickname userNickname) 5
  have hothers : ((t.users.filter fun row => coll.contains row.userNickname userNickname).countP
      fun user => !(user.userNickname == userNickname)) =
        t.users.countP fun user => coll.contains user.userNickname userNickname &&
          user.userNickname != userNickname := by
    rw [List.countP_filter]
    exact List.countP_congr fun user _ => by simp [bne, and_comm]
  have hfound : (∃ user ∈ t.users.filter fun row => coll.contains row.userNickname userNickname,
      (user.userNickname == userNickname) = true) ↔
        Named t userNickname ∧ coll.contains userNickname userNickname = true := by
    constructor
    · rintro ⟨user, huser, heq⟩
      obtain ⟨hmem, hcontains⟩ := List.mem_filter.mp huser
      rw [beq_iff_eq.mp heq] at hcontains
      exact ⟨⟨user, hmem, beq_iff_eq.mp heq⟩, hcontains⟩
    · rintro ⟨⟨user, hmem, heq⟩, hcontains⟩
      refine ⟨user, List.mem_filter.mpr ⟨hmem, ?_⟩, beq_iff_eq.mpr heq⟩
      rw [heq]
      exact hcontains
  rw [hothers, hfound, and_assoc] at hlimit
  refine Iff.trans ⟨fun hall chosen hperm => ?_, ?_⟩ hlimit
  · exact hall (chosen.take 5) ⟨chosen, hperm, List.pairwise_of_forall fun _ _ => trivial, rfl⟩
  · rintro hall rows ⟨chosen, hperm, _, rfl⟩
    exact hall chosen hperm

/-- The check of a mention goes on if the answer has the user, and raises if not. -/
theorem Solo.ensureMentioned (h : Solo c t [] s) {Q : Except AppError Unit → State C → Prop} :
    (CommentService.ensureMentioned userNickname).total (healthy coll) c Q s ↔
      ∀ rows : List User, Query.answers coll t (.usersNamed userNickname) rows →
        if ∃ user ∈ rows, (user.userNickname == userNickname) = true then
          Q (.ok ()) { s with db := s.db.read c }
        else
          Q (.error (.notFound s!"멘션한 사용자 @{userNickname}을 찾을 수 없습니다."))
            { s with db := s.db.read c } := by
  have hview : s.db.view apply c = t := h.view
  have hbranch : ∀ rows : List User, Prog.total (healthy coll) c
      (if rows.any fun user => user.userNickname == userNickname then pure ()
        else throw (.notFound s!"멘션한 사용자 @{userNickname}을 찾을 수 없습니다.") : BoardM Unit) Q
        { s with db := s.db.read c } ↔
      if ∃ user ∈ rows, (user.userNickname == userNickname) = true then
        Q (.ok ()) { s with db := s.db.read c }
      else
        Q (.error (.notFound s!"멘션한 사용자 @{userNickname}을 찾을 수 없습니다."))
          { s with db := s.db.read c } := by
    intro rows
    simp only [List.any_eq_true]
    split <;> rfl
  constructor
  · intro htotal rows hrows
    exact (hbranch rows).mp (htotal.2 (.ok rows) _ ⟨by rwa [hview], rfl⟩)
  · intro hall
    obtain ⟨rows, hrows⟩ := Query.exists_answer coll t (.usersNamed userNickname)
    refine ⟨⟨.ok rows, _, by rwa [hview], rfl⟩, ?_⟩
    rintro (e | rows) s' hs
    · exact hs.1.elim
    · obtain ⟨hrows, rfl⟩ := hs
      rw [hview] at hrows
      exact (hbranch rows).mpr (hall rows hrows)

/-- All mentions are accepted, whatever the answers, exactly if all users are there and can
be found. -/
theorem Solo.accepted_iff (userNicknames : List String) : ∀ {s : State C}, Solo c t [] s →
    ((userNicknames.forM CommentService.ensureMentioned).total (healthy coll) c
        (fun o _ => o = .ok ()) s ↔
      ∀ userNickname ∈ userNicknames, Named t userNickname ∧ Findable coll t userNickname) := by
  induction userNicknames with
  | nil => simp [List.forM]
  | cons userNickname userNicknames ih =>
      intro s h
      rw [List.forall_mem_cons, ← ih h.read, ← found_iff]
      refine Iff.trans total_bind (h.ensureMentioned.trans ?_)
      simp only [reduceCtorEq]
      constructor
      · intro hall
        have hfound : ∀ rows : List User,
            Query.answers coll t (.usersNamed userNickname) rows →
              ∃ user ∈ rows, (user.userNickname == userNickname) = true := by
          intro rows hrows
          by_contra hnone
          have hraise := hall rows hrows
          rw [if_neg hnone] at hraise
          exact hraise
        obtain ⟨rows, hrows⟩ := Query.exists_answer coll t (.usersNamed userNickname)
        have hrest := hall rows hrows
        rw [if_pos (hfound rows hrows)] at hrest
        exact ⟨hfound, hrest⟩
      · rintro ⟨hfound, hrest⟩ rows hrows
        rw [if_pos (hfound rows hrows)]
        exact hrest

/-- A mention of nobody is never accepted. -/
theorem Solo.refused {userNicknames : List String} {userNickname : String}
    (hmem : userNickname ∈ userNicknames) (hnone : ¬ Named t userNickname) :
    ∀ {s : State C}, Solo c t [] s →
      (userNicknames.forM CommentService.ensureMentioned).total (healthy coll) c
        (fun o _ => o ≠ .ok ()) s := by
  induction userNicknames with
  | nil => cases hmem
  | cons first userNicknames ih =>
      intro s h
      refine total_bind.mpr (h.ensureMentioned.mpr fun rows hrows => ?_)
      split
      next hfound =>
        rcases List.mem_cons.mp hmem with rfl | hmem
        · obtain ⟨user, huser, heq⟩ := hfound
          obtain ⟨chosen, hperm, _, rfl⟩ := hrows
          have hcandidate := hperm.subset (List.mem_of_mem_drop (List.mem_of_mem_take huser))
          exact absurd ⟨user, (List.mem_filter.mp hcandidate).1, beq_iff_eq.mp heq⟩ hnone
        · exact ih hmem h.read
      · simp

/-- Mentions are accepted exactly for existing users, whatever rows the database returns,
if and only if the users can be found where they all exist. -/
theorem validateMentions_iff (h : Solo c t [] s) (text : String) :
    (CommentService.validateMentions text).total (healthy coll) c
        (fun o _ => o = .ok () ↔ ∀ userNickname ∈ mentions text, Named t userNickname) s ↔
      ((∀ userNickname ∈ mentions text, Named t userNickname) →
        ∀ userNickname ∈ mentions text, Findable coll t userNickname) := by
  rw [validateMentions_eq]
  by_cases hall : ∀ userNickname ∈ mentions text, Named t userNickname
  · simp only [iff_true_right hall]
    rw [h.accepted_iff]
    exact ⟨fun hboth _ userNickname hmem => (hboth userNickname hmem).2,
      fun hfind userNickname hmem => ⟨hall userNickname hmem, hfind hall userNickname hmem⟩⟩
  · obtain ⟨userNickname, hmem, hnone⟩ : ∃ userNickname ∈ mentions text,
        ¬ Named t userNickname := by
      by_contra hex
      exact hall fun userNickname hmem => by_contra fun hnone => hex ⟨userNickname, hmem, hnone⟩
    refine ⟨fun _ hnamed => absurd hnamed hall, fun _ => ?_⟩
    exact total_mono (fun o _ hne => iff_of_false hne hall) (h.refused hmem hnone)

end Mentions

/-! ## Six users whose nicknames begin alike -/

section Samples

open Infrastructure (binaryCollation)

def nicknames : List String := ["anna", "anne", "anni", "anno", "annu", "ann"]

/-- The user `ann`, behind five others. -/
def crowd : State Unit where
  db :=
    { committed := ⟨nicknames.mapIdx fun n userNickname => ⟨n, userNickname, .user, true⟩,
        [], [], [], [], []⟩
      session := fun _ => .idle }
  nextId _ := 1
  objects _ := none
  fileIds := []

theorem solo_crowd : Solo () crowd.db.committed [] crowd where
  toAt := at_of_idle rfl
  others _ hc := absurd rfl hc
  numbered :=
    { users := by decide
      nodup := by
        intro table
        cases table <;> decide
      below := by
        intro table
        cases table <;> decide }

theorem mentions_ann : mentions "@ann" = ["ann"] := by decide

theorem named_ann : Named crowd.db.committed "ann" := ⟨⟨5, "ann", .user, true⟩, by decide, rfl⟩

/-- All nicknames contain `ann`. -/
theorem contains_ann : ∀ userNickname ∈ nicknames,
    binaryCollation.contains userNickname "ann" = true := by
  simp [nicknames, Collation.contains, Infrastructure.like, binaryCollation]

/-- `ann` exists, and a mention may be refused: the five others come back. -/
theorem ann_not_mentionable : (∀ userNickname ∈ mentions "@ann",
      Named crowd.db.committed userNickname) ∧
    ¬ (CommentService.validateMentions "@ann").total (healthy binaryCollation) ()
      (fun o _ => o = .ok () ↔ ∀ userNickname ∈ mentions "@ann",
        Named crowd.db.committed userNickname) crowd := by
  have hnamed : ∀ userNickname ∈ mentions "@ann", Named crowd.db.committed userNickname := by
    rw [mentions_ann]
    exact List.forall_mem_singleton.mpr named_ann
  refine ⟨hnamed, fun haccepted => ?_⟩
  have hok := total_mono (fun o s h => h.mpr hnamed) haccepted
  rw [validateMentions_eq, mentions_ann, solo_crowd.accepted_iff] at hok
  have hfew := (hok "ann" List.mem_cons_self).2.2
  have hmany : (crowd.db.committed.users.countP fun user =>
      binaryCollation.contains user.userNickname "ann" && user.userNickname != "ann") =
        crowd.db.committed.users.countP fun user => user.userNickname != "ann" :=
    List.countP_congr fun user huser => by
      have hmem : user.userNickname ∈ nicknames := by
        obtain ⟨n, hn, heq⟩ := List.mem_mapIdx.mp huser
        rw [← heq]
        exact List.getElem_mem hn
      simp [contains_ann _ hmem]
  rw [hmany] at hfew
  exact absurd hfew (by decide)

theorem mentions_anna : mentions "@anna" = ["anna"] := by decide

/-- `anna` is found. -/
theorem validateMentions_iff_sample :
    (CommentService.validateMentions "@anna").total (healthy binaryCollation) ()
      (fun o _ => o = .ok () ↔ ∀ userNickname ∈ mentions "@anna",
        Named crowd.db.committed userNickname) crowd :=
  (validateMentions_iff solo_crowd "@anna").mpr fun _ => by
    rw [mentions_anna]
    refine List.forall_mem_singleton.mpr ⟨?_, ?_⟩ <;>
      simp [crowd, nicknames, Collation.contains, Infrastructure.like, binaryCollation]

end Samples

end GreenCommunity.Board
