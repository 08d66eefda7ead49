import GreenCommunity.Base.Text
import GreenCommunity.Board.Deletion
import GreenCommunity.Board.Entitlement
import GreenCommunity.Board.Uploads

/-!
# Stored images

The rows of `posts_image` name objects in storage.  A `Gallery` is what matters of the
rows, the objects and the uploads under way: a UUID is drawn for one upload only, its
three objects come before its row, and the row before the commit.  The steps of a run
are steps of the gallery, whose invariant says that no committed row dangles and that no
two of them share an object.
-/

namespace GreenCommunity.Board

open GreenCommunity.Base
open GreenCommunity.Infrastructure (Collation)

/-! ## Keys -/

/-- What a key has behind the number of the post. -/
def keyRests (fileId suffix : String) : List (List Char) :=
  ["original/".toList ++ (fileId.toList ++ suffix.toList),
    "content/".toList ++ (fileId.toList ++ ".webp".toList),
    "thumbnail/".toList ++ (fileId.toList ++ ".webp".toList)]

section Keys

variable {p q : Int} {fileId fileId' suffix suffix' : String}

theorem fileKeys_toList : (fileKeys p fileId suffix).map String.toList =
    (keyRests fileId suffix).map fun rest =>
      "posts/".toList ++ ((toString p).toList ++ '/' :: rest) := by
  simp [fileKeys, keyRests, originalKey, contentKey, thumbnailKey, Text.toString_text]

theorem rest_of_mem {key : String} (h : key ∈ fileKeys p fileId suffix) :
    ∃ rest ∈ keyRests fileId suffix,
      key.toList = "posts/".toList ++ ((toString p).toList ++ '/' :: rest) := by
  have hmem := List.mem_map_of_mem (f := String.toList) h
  rw [fileKeys_toList] at hmem
  obtain ⟨rest, hrest, hkey⟩ := List.mem_map.mp hmem
  exact ⟨rest, hrest, hkey.symm⟩

/-- The number of the post has no slash, so that equal keys have equal rests. -/
theorem key_cut {a b : List Char}
    (h : "posts/".toList ++ ((toString p).toList ++ '/' :: a) =
      "posts/".toList ++ ((toString q).toList ++ '/' :: b)) : a = b := by
  rw [List.append_cancel_left_eq] at h
  exact (Text.cut_inj (Text.notMem_int (by decide) (by decide) p)
    (Text.notMem_int (by decide) (by decide) q) h).2

/-- The folders tell the three rests of a file apart, and UUIDs of one length the files. -/
theorem keyRests_inj {rest : List Char} (hlength : fileId.length = fileId'.length)
    (h : rest ∈ keyRests fileId suffix) (h' : rest ∈ keyRests fileId' suffix') :
    fileId = fileId' := by
  have hfile : ∀ {folder a b : List Char},
      folder ++ (fileId.toList ++ a) = folder ++ (fileId'.toList ++ b) → fileId = fileId' := by
    intro folder a b heq
    refine String.toList_inj.mp (List.append_inj_left (List.append_cancel_left heq) ?_)
    rw [String.length_toList, String.length_toList, hlength]
  simp only [keyRests, List.mem_cons, List.not_mem_nil, or_false] at h h'
  rcases h with rfl | rfl | rfl
  · rcases h' with heq | heq | heq
    · exact hfile heq
    · simp at heq
    · simp at heq
  · rcases h' with heq | heq | heq
    · simp at heq
    · exact hfile heq
    · simp at heq
  · rcases h' with heq | heq | heq
    · simp at heq
    · simp at heq
    · exact hfile heq

theorem fileKeys_nodup : (fileKeys p fileId suffix).Nodup := by
  refine List.Nodup.of_map String.toList ?_
  rw [fileKeys_toList]
  refine List.Nodup.map (fun a b h => key_cut h) ?_
  simp [keyRests]

/-- Two files share no key. -/
theorem fileKeys_disjoint (hlength : fileId.length = fileId'.length) (hne : fileId ≠ fileId') :
    (fileKeys p fileId suffix).Disjoint (fileKeys q fileId' suffix') := by
  intro key hkey hkey'
  obtain ⟨rest, hrest, hlist⟩ := rest_of_mem hkey
  obtain ⟨rest', hrest', hlist'⟩ := rest_of_mem hkey'
  obtain rfl := key_cut (hlist.symm.trans hlist')
  exact hne (keyRests_inj hlength hrest hrest')

end Keys

section Rows

variable {row row' : PostImage} {fileId fileId' : String}

theorem keys_nodup (h : row.Names fileId) : row.keys.Nodup := by
  obtain ⟨suffix, hkeys⟩ := h
  rw [hkeys]
  exact fileKeys_nodup

theorem keys_disjoint (h : row.Names fileId) (h' : row'.Names fileId')
    (hlength : fileId.length = fileId'.length) (hne : fileId ≠ fileId') :
    row.keys.Disjoint row'.keys := by
  obtain ⟨suffix, hkeys⟩ := h
  obtain ⟨suffix', hkeys'⟩ := h'
  rw [hkeys, hkeys']
  exact fileKeys_disjoint hlength hne

/-- A row is about one file. -/
theorem names_inj (h : row.Names fileId) (h' : row.Names fileId')
    (hlength : fileId.length = fileId'.length) : fileId = fileId' := by
  by_contra hne
  exact keys_disjoint h h' hlength hne (List.mem_cons_self) (List.mem_cons_self)

end Rows

/-! ## Galleries -/

/-- The images of the board, and the uploads of the callers. -/
structure Gallery (C : Type) where
  /-- The object is in storage. -/
  present : String → Prop
  made : List String
  draft : C → Draft
  /-- The rows that a caller has inserted and not committed. -/
  pending : C → List PostImage
  images : List PostImage

/-- What a caller has inserted is the row of its draft, whose objects are there. -/
inductive Pending (present : String → Prop) : Draft → List PostImage → Prop where
  | none : Pending present .none []
  | drawn (fileId : String) : Pending present (.drawn fileId) []
  | inserted (fileId : String) (row : PostImage) (hnames : row.Names fileId)
      (hkeys : ∀ key ∈ row.keys, present key) : Pending present (.inserted fileId) [row]

theorem Pending.mono {present present' : String → Prop} {draft : Draft}
    {rows : List PostImage} (hp : ∀ key, present key → present' key)
    (h : Pending present draft rows) : Pending present' draft rows := by
  cases h with
  | none => exact .none
  | drawn fileId => exact .drawn fileId
  | inserted fileId row hnames hkeys =>
      exact .inserted fileId row hnames fun key hkey => hp key (hkeys key hkey)

namespace Gallery

variable {C : Type}

structure Sound (g : Gallery C) : Prop where
  drafts : ∀ c fileId, (g.draft c).fileId = some fileId →
    fileId ∈ g.made ∧ fileId.length = 36
  apart : ∀ c d fileId, (g.draft c).fileId = some fileId →
    (g.draft d).fileId = some fileId → c = d
  unused : ∀ c fileId, (g.draft c).fileId = some fileId → ∀ row ∈ g.images, ¬ row.Names fileId
  pending : ∀ c, Pending g.present (g.draft c) (g.pending c)
  named : ∀ row ∈ g.images, ∃ fileId ∈ g.made, fileId.length = 36 ∧ row.Names fileId
  stored : ∀ row ∈ g.images, ∀ key ∈ row.keys, g.present key
  disjoint : g.images.Pairwise fun row row' => row.keys.Disjoint row'.keys

/-- What a caller does to the gallery. -/
inductive Act (g g' : Gallery C) (c : C) : Prop where
  | still (hmade : g'.made = g.made) (hdraft : g'.draft c = g.draft c)
      (hpending : g'.pending c = g.pending c) (himages : g'.images = g.images)
  | draw (fileId : String) (hlength : fileId.length = 36) (hnew : fileId ∉ g.made)
      (hmade : g'.made = fileId :: g.made) (hnone : g.draft c = .none)
      (hdraft : g'.draft c = .drawn fileId) (hpending : g'.pending c = g.pending c)
      (himages : g'.images = g.images)
  | insert (fileId : String) (row : PostImage) (hmade : g'.made = g.made)
      (hdrawn : g.draft c = .drawn fileId) (hnames : row.Names fileId)
      (hkeys : ∀ key ∈ row.keys, g.present key) (hdraft : g'.draft c = .inserted fileId)
      (hpending : g'.pending c = g.pending c ++ [row]) (himages : g'.images = g.images)
  | commit (hmade : g'.made = g.made) (hdraft : g'.draft c = .none) (hpending : g'.pending c = [])
      (himages : g'.images = g.images ++ g.pending c)
  | drop (hmade : g'.made = g.made) (hdraft : g'.draft c = .none) (hpending : g'.pending c = [])
      (himages : g'.images = g.images)

/-- A step of a caller: objects stay, and the other callers do not notice. -/
structure Step (g g' : Gallery C) (c : C) : Prop where
  present : ∀ key, g.present key → g'.present key
  draft : ∀ d, d ≠ c → g'.draft d = g.draft d
  pending : ∀ d, d ≠ c → g'.pending d = g.pending d
  act : g.Act g' c

variable {g g' : Gallery C} {c : C}

/-- The drafts are those from before, if that of the caller is. -/
theorem Step.fileId (hs : g.Step g' c)
    (hc : ∀ fileId, (g'.draft c).fileId = some fileId → (g.draft c).fileId = some fileId)
    {d : C} {fileId : String} (hd : (g'.draft d).fileId = some fileId) :
    (g.draft d).fileId = some fileId := by
  by_cases heq : d = c
  · subst heq
    exact hc fileId hd
  · rwa [hs.draft d heq] at hd

theorem Step.pendings (hs : g.Step g' c) (h : g.Sound)
    (hc : Pending g'.present (g'.draft c) (g'.pending c)) (d : C) :
    Pending g'.present (g'.draft d) (g'.pending d) := by
  by_cases heq : d = c
  · subst heq
    exact hc
  · rw [hs.draft d heq, hs.pending d heq]
    exact (h.pending d).mono hs.present

/-- Nothing is drawn or committed. -/
theorem Sound.keep (h : g.Sound) (hs : g.Step g' c) (hmade : g'.made = g.made)
    (himages : g'.images = g.images)
    (hc : ∀ fileId, (g'.draft c).fileId = some fileId → (g.draft c).fileId = some fileId)
    (hpending : Pending g'.present (g'.draft c) (g'.pending c)) : g'.Sound where
  drafts d fileId hd := by
    rw [hmade]
    exact h.drafts d fileId (hs.fileId hc hd)
  apart d d' fileId hd hd' := h.apart d d' fileId (hs.fileId hc hd) (hs.fileId hc hd')
  unused d fileId hd := by
    rw [himages]
    exact h.unused d fileId (hs.fileId hc hd)
  pending := hs.pendings h hpending
  named := by
    rw [himages, hmade]
    exact h.named
  stored row hrow key hkey := hs.present key (h.stored row (himages ▸ hrow) key hkey)
  disjoint := himages ▸ h.disjoint

/-- A new UUID is that of no draft and of no row. -/
theorem Sound.draw (h : g.Sound) (hs : g.Step g' c) {fileId : String}
    (hlength : fileId.length = 36) (hnew : fileId ∉ g.made) (hmade : g'.made = fileId :: g.made)
    (hdraft : g'.draft c = .drawn fileId) (hpending : g'.pending c = [])
    (himages : g'.images = g.images) : g'.Sound := by
  have hcases : ∀ {d id}, (g'.draft d).fileId = some id →
      (d = c ∧ id = fileId) ∨ (g.draft d).fileId = some id := by
    intro d id hd
    by_cases heq : d = c
    · subst heq
      rw [hdraft] at hd
      exact Or.inl ⟨rfl, (Option.some.inj hd).symm⟩
    · rw [hs.draft d heq] at hd
      exact Or.inr hd
  refine ⟨fun d id hd => ?_, fun d d' id hd hd' => ?_, fun d id hd row hrow hnames => ?_,
    hs.pendings h ?_, fun row hrow => ?_,
    fun row hrow key hkey => hs.present key (h.stored row (himages ▸ hrow) key hkey),
    himages ▸ h.disjoint⟩
  · rw [hmade]
    rcases hcases hd with ⟨rfl, rfl⟩ | hold
    · exact ⟨List.mem_cons_self, hlength⟩
    · exact ⟨List.mem_cons_of_mem _ (h.drafts d id hold).1, (h.drafts d id hold).2⟩
  · rcases hcases hd with ⟨rfl, rfl⟩ | hold
    · rcases hcases hd' with ⟨rfl, _⟩ | hold'
      · rfl
      · exact absurd (h.drafts d' _ hold').1 hnew
    · rcases hcases hd' with ⟨rfl, rfl⟩ | hold'
      · exact absurd (h.drafts d _ hold).1 hnew
      · exact h.apart d d' id hold hold'
  · rw [himages] at hrow
    rcases hcases hd with ⟨rfl, rfl⟩ | hold
    · obtain ⟨id', hid', hlength', hnames'⟩ := h.named row hrow
      obtain rfl := names_inj hnames hnames' (hlength.trans hlength'.symm)
      exact hnew hid'
    · exact h.unused d id hold row hrow hnames
  · rw [hdraft, hpending]
    exact .drawn fileId
  · rw [himages] at hrow
    obtain ⟨id, hid, hnamed⟩ := h.named row hrow
    exact ⟨id, hmade ▸ List.mem_cons_of_mem _ hid, hnamed⟩

/-- The row that is committed is the only one of its file. -/
theorem Sound.commit (h : g.Sound) (hs : g.Step g' c) (hmade : g'.made = g.made)
    (hdraft : g'.draft c = .none) (hpending : g'.pending c = [])
    (himages : g'.images = g.images ++ g.pending c) : g'.Sound := by
  have hover : ∀ id, (g'.draft c).fileId = some id → (g.draft c).fileId = some id := by
    intro id hid
    rw [hdraft] at hid
    cases hid
  have hempty : Pending g'.present (g'.draft c) (g'.pending c) := by
    rw [hdraft, hpending]
    exact .none
  have hold := h.pending c
  generalize hd : g.draft c = draft, hp : g.pending c = rows at hold
  cases hold with
  | none | drawn =>
      exact h.keep hs hmade (by rw [himages, hp, List.append_nil]) hover hempty
  | inserted fileId row hnames hkeys =>
      rw [hp] at himages
      have hfile : (g.draft c).fileId = some fileId := by rw [hd]; rfl
      obtain ⟨hin, hlength⟩ := h.drafts c fileId hfile
      have hmem : ∀ {row'}, row' ∈ g'.images → row' ∈ g.images ∨ row' = row := by
        intro row' hrow'
        rw [himages] at hrow'
        exact (List.mem_append.mp hrow').imp_right List.mem_singleton.mp
      refine ⟨fun d id hid => hmade ▸ h.drafts d id (hs.fileId hover hid),
        fun d d' id hid hid' => h.apart d d' id (hs.fileId hover hid) (hs.fileId hover hid'),
        fun d id hid row' hrow' hnames' => ?_, hs.pendings h hempty, fun row' hrow' => ?_,
        fun row' hrow' key hkey => ?_, ?_⟩
      · rcases hmem hrow' with hrow' | rfl
        · exact h.unused d id (hs.fileId hover hid) row' hrow' hnames'
        · have hid₀ := hs.fileId hover hid
          obtain rfl := names_inj hnames hnames'
            (hlength.trans (h.drafts d id hid₀).2.symm)
          obtain rfl := h.apart d c fileId hid₀ hfile
          rw [hdraft] at hid
          cases hid
      · rw [hmade]
        rcases hmem hrow' with hrow' | rfl
        · exact h.named row' hrow'
        · exact ⟨fileId, hin, hlength, hnames⟩
      · refine hs.present key ?_
        rcases hmem hrow' with hrow' | rfl
        · exact h.stored row' hrow' key hkey
        · exact hkeys key hkey
      · rw [himages]
        refine List.pairwise_append.mpr ⟨h.disjoint, List.pairwise_singleton _ _, ?_⟩
        intro row' hrow' row'' hrow''
        obtain rfl := List.mem_singleton.mp hrow''
        obtain ⟨id, _, hlength', hnames'⟩ := h.named row' hrow'
        refine keys_disjoint hnames' hnames (hlength'.trans hlength.symm) ?_
        rintro rfl
        exact h.unused c id hfile row' hrow' hnames'

/-- The invariant is kept. -/
theorem Sound.step (h : g.Sound) (hs : g.Step g' c) : g'.Sound := by
  cases hs.act with
  | still hmade hdraft hpending himages =>
      refine h.keep hs hmade himages (fun id hid => by rwa [hdraft] at hid) ?_
      rw [hdraft, hpending]
      exact (h.pending c).mono hs.present
  | draw fileId hlength hnew hmade hnone hdraft hpending himages =>
      have hold := h.pending c
      rw [hnone] at hold
      cases hrows : g.pending c with
      | nil => exact h.draw hs hlength hnew hmade hdraft (hpending.trans hrows) himages
      | cons row rows =>
          rw [hrows] at hold
          cases hold
  | insert fileId row hmade hdrawn hnames hkeys hdraft hpending himages =>
      have hold := h.pending c
      rw [hdrawn] at hold
      refine h.keep hs hmade himages (fun id hid => ?_) ?_
      · rw [hdrawn]
        rwa [hdraft] at hid
      · rw [hdraft, hpending]
        generalize g.pending c = rows at hold
        cases hold
        exact .inserted fileId row hnames fun key hkey => hs.present key (hkeys key hkey)
  | commit hmade hdraft hpending himages => exact h.commit hs hmade hdraft hpending himages
  | drop hmade hdraft hpending himages =>
      refine h.keep hs hmade himages (fun id hid => ?_) ?_
      · rw [hdraft] at hid
        cases hid
      · rw [hdraft, hpending]
        exact .none

end Gallery

/-! ## Runs -/

section Runs

variable {C : Type} [DecidableEq C] {coll : Collation} {dep : Deployment} {who : C → Int}
  {req : C → Request} {init : State C} {tr : List (Label C Op Reply)}
  {cfg cfg' : Config C Op Reply AppError Unit (State C)}

def imaging (c : C) (tr : List (Label C Op Reply)) : Imaging :=
  (own c tr).foldl Imaging.next .start

theorem imaging_env (c : C) (tr : List (Label C Op Reply)) :
    imaging c (tr ++ [.env]) = imaging c tr := by
  simp [imaging]

theorem imaging_self (c : C) (tr : List (Label C Op Reply)) (e : BoardEvent) :
    imaging c (tr ++ [.call c e]) = (imaging c tr).next e := by
  simp [imaging]

theorem imaging_ne {c d : C} (h : d ≠ c) (tr : List (Label C Op Reply)) (e : BoardEvent) :
    imaging c (tr ++ [.call d e]) = imaging c tr := by
  simp [imaging, own_call_ne h]

theorem Imaging.stored_next {x : Imaging} {e : BoardEvent} {key : String}
    (h : key ∈ (x.next e).stored) : key ∈ x.stored ∨
      ∃ data contentType r, e = ⟨.upload key data contentType, .ok r⟩ := by
  unfold Imaging.next at h
  dsimp only at h
  split at h
  · rcases List.mem_cons.mp h with rfl | h
    · exact Or.inr ⟨_, _, _, rfl⟩
    · exact Or.inl h
  · exact Or.inl h

theorem Imaging.shown_next {x : Imaging} {e : BoardEvent} {row : PostImage}
    (h : row ∈ (x.next e).shown) : row ∈ x.shown ∨
      ∃ postId rows, e = ⟨.select (.postImages postId), .ok rows⟩ ∧ row ∈ rows := by
  unfold Imaging.next at h
  dsimp only at h
  split at h
  · rcases List.mem_append.mp h with h | h
    · exact Or.inr ⟨_, _, rfl, h⟩
    · exact Or.inl h
  · exact Or.inl h

/-- The gallery of a state. -/
def gallery (tr : List (Label C Op Reply)) (s : State C) : Gallery C where
  present key := (s.objects key).isSome = true
  made := s.fileIds
  draft c := (imaging c tr).draft
  pending c := (s.db.session c).writes.filterMap Write.image
  images := s.db.committed.postImages

theorem present_storing {objects : String → Option (List UInt8)} {key : String} (e : BoardEvent)
    (h : (objects key).isSome = true) : (storing objects e key).isSome = true := by
  unfold storing
  split
  next key' data contentType r =>
    by_cases heq : key = key'
    · simp [heq]
    · simpa [heq] using h
  next => exact h

/-- A write that inserts no image. -/
theorem images_write {c : C} {s : State C} {w : Write} (hw : w.image = none) :
    ((s.db.write c w).session c).writes.filterMap Write.image =
      (s.db.session c).writes.filterMap Write.image := by
  simp [hw]

theorem gallery_draft {c : C} {s : State C} (e : BoardEvent) :
    (gallery (tr ++ [.call c e]) s).draft c = (imaging c tr).draft.next e :=
  congrArg Imaging.draft (imaging_self c tr e)

/-- The row that is inserted names the objects of the drawn file, which are stored. -/
private theorem gallery_insert {c : C} {s s' : State C} {new : NewRow} {createdAt : Nat}
    {image : PostImage} {r : Int} (hadmits : (imaging c tr).Admits ⟨.insert new, .ok r⟩)
    (hstored : ∀ key ∈ (imaging c tr).stored, (s.objects key).isSome = true)
    (hrow : new.row r createdAt = some (.postImage image)) (hmade : s'.fileIds = s.fileIds)
    (hwrites : (s'.db.session c).writes =
      (s.db.session c).writes ++ [.insert (.postImage image)])
    (hdb : s'.db.committed = s.db.committed) :
    (gallery tr s).Act (gallery (tr ++ [.call c ⟨.insert new, .ok r⟩]) s') c := by
  obtain ⟨postId, originalPath, contentPath, thumbnailPath, rfl, rfl⟩ :=
    row_eq_postImage hrow
  obtain ⟨fileId, suffix, hdrawn, hkeys, hall⟩ := hadmits
  have hnames : PostImage.Names ⟨r, postId, originalPath, contentPath, thumbnailPath⟩ fileId :=
    ⟨suffix, hkeys⟩
  refine .insert fileId _ hmade hdrawn hnames (fun key hkey => ?_) ?_ ?_
    (congrArg Tables.postImages hdb)
  · exact hstored key (hall key (hkeys ▸ hkey))
  · rw [gallery_draft, hdrawn]
    rfl
  · simp [gallery, hwrites, Write.image]

/-- A step of a run is a step of the gallery. -/
theorem gallery_step {c : C} {e : BoardEvent}
    (hrun : Run (sem coll) anyStep (start dep who req init) tr cfg)
    (hl : Step (sem coll) cfg (.call c e) cfg')
    (hstored : ∀ key ∈ (imaging c tr).stored, (cfg.state.objects key).isSome = true) :
    (gallery tr cfg.state).Step (gallery (tr ++ [.call c e]) cfg'.state) c := by
  have hadmits : (imaging c tr).Admits e :=
    hrun.track_step (fun c => serve_draws dep (who c) (req c)) hl
  obtain ⟨op, r⟩ := e
  cases hl with
  | @call _ _ k _ s' hpool hstep =>
  have heff := effect_of_step hstep
  refine ⟨fun key hkey => ?_, fun d hd => ?_, fun d hd => ?_, ?_⟩
  · show (s'.objects key).isSome = true
    rw [(objects_step (e := ⟨op, r⟩) hstep).1]
    exact present_storing _ hkey
  · show (imaging d _).draft = _
    rw [imaging_ne (Ne.symm hd)]
    rfl
  · show (s'.db.session d).writes.filterMap Write.image = _
    rw [others_step hd heff]
    rfl
  have hdraft : (gallery (tr ++ [.call c ⟨op, r⟩]) s').draft c =
      (imaging c tr).draft.next ⟨op, r⟩ := gallery_draft _
  have hstill : s'.fileIds = cfg.state.fileIds →
      (imaging c tr).draft.next ⟨op, r⟩ = (imaging c tr).draft →
      (s'.db.session c).writes.filterMap Write.image =
        (cfg.state.db.session c).writes.filterMap Write.image →
      s'.db.committed = cfg.state.db.committed →
      (gallery tr cfg.state).Act (gallery (tr ++ [.call c ⟨op, r⟩]) s') c :=
    fun hmade hnext hpending hdb =>
      .still hmade (hdraft.trans hnext) hpending (congrArg Tables.postImages hdb)
  cases r with
  | error e =>
      obtain ⟨_, rfl⟩ := hstep
      exact hstill rfl (Draft.next_error _ op e) rfl rfl
  | ok r =>
      cases op with
      | select query =>
          obtain ⟨_, rfl⟩ := hstep
          exact hstill rfl rfl (by rw [Db.writes_read]) rfl
      | insert new =>
          obtain ⟨_, createdAt, row, hrow, _, rfl⟩ := hstep
          cases himage : (Write.insert row).image with
          | none =>
              refine hstill rfl ?_ (images_write himage) rfl
              cases new with
              | postImage =>
                  simp only [NewRow.row, Option.ite_none_right_eq_some,
                    Option.some.injEq] at hrow
                  rw [← hrow.2] at himage
                  cases himage
              | _ => rfl
          | some image =>
              obtain rfl : row = .postImage image := by
                simpa using image_eq_some.mp himage
              exact gallery_insert hadmits hstored hrow rfl (Db.writes_write ..) rfl
      | update =>
          obtain ⟨_, _, rfl⟩ := hstep
          exact hstill rfl rfl (images_write rfl) rfl
      | uuid4 =>
          obtain ⟨hlength, hnew, rfl⟩ := hstep
          exact .draw r hlength hnew rfl hadmits hdraft rfl rfl
      | commit =>
          obtain rfl := hstep
          refine .commit rfl hdraft ?_ (foldl_inserts postImages_apply)
          show ((cfg.state.db.commit apply c).session c).writes.filterMap Write.image = []
          rw [Db.session_commit]
          rfl
      | rollback | close =>
          obtain rfl := hstep
          refine .drop rfl hdraft ?_ rfl
          show ((cfg.state.db.rollback c).session c).writes.filterMap Write.image = []
          rw [Db.session_rollback]
          rfl
      | countLikes | getLike =>
          obtain rfl := hstep
          exact hstill rfl rfl (by rw [Db.writes_read]) rfl
      | _ =>
          obtain rfl := hstep
          exact hstill rfl rfl rfl rfl

/-- Every image belongs to a post. -/
def PostsExist (t : Tables) : Prop :=
  ∀ image ∈ t.postImages, ∃ post ∈ t.posts, post.postId = image.postId

omit [DecidableEq C] in
/-- A row is inserted for a post that the transaction has read. -/
theorem post_of_inserted {c : C} {s : State C} {x : Summary}
    (h : Explains coll s.db.committed x (s.db.session c)) {image : PostImage}
    (hin : .insert (.postImage image) ∈ (s.db.session c).writes) :
    ∃ post ∈ s.db.committed.posts, post.postId = image.postId := by
  obtain ⟨_, new, n, createdAt, _, hnew, hj⟩ := h.inserted hin
  obtain ⟨postId, _, _, _, rfl, rfl⟩ := row_eq_postImage hnew
  obtain ⟨user, post, _, hread, _⟩ := hj
  obtain ⟨t, hsnap, hrows⟩ := h.reads _ _ hread
  have hpost : post ∈ (activePosts t).filter fun row => row.postId == postId := by
    rw [← show [post] = _ from hrows]
    exact List.mem_singleton.mpr rfl
  obtain ⟨hactive, hid⟩ := List.mem_filter.mp hpost
  obtain ⟨row, hrow, heq⟩ := (h.before t hsnap).posts post (List.mem_filter.mp hactive).1
  exact ⟨row, hrow, heq.trans (by simpa using hid)⟩

/-- Posts and images are never deleted. -/
theorem postsExist_run (h0 : Idle init) (hposts : PostsExist init.db.committed)
    (h : Run (sem coll) anyStep (start dep who req init) tr cfg) :
    cfg.state.db.Follows PostsExist fun t t' => t.postImages ⊆ t'.postImages := by
  refine follows_run (fun _ => List.Subset.refl _) List.Subset.trans
    (fun t users hI => ⟨hI, List.Subset.refl _⟩) h0 hposts ?_ h
  intro tr cfg c hrun hfollows
  have himages : (cfg.state.db.current apply c).postImages =
      cfg.state.db.committed.postImages ++
        (cfg.state.db.session c).writes.filterMap Write.image := foldl_inserts postImages_apply
  have hkept : ∀ {image : PostImage},
      (∃ post ∈ cfg.state.db.committed.posts, post.postId = image.postId) →
        ∃ post ∈ (cfg.state.db.current apply c).posts, post.postId = image.postId := by
    rintro image ⟨post, hpost, hid⟩
    obtain ⟨row, hrow, heq⟩ := (Tables.Before.foldl _ _).posts post hpost
    exact ⟨row, hrow, heq.trans hid⟩
  refine ⟨fun image hin => hkept ?_, himages ▸ List.subset_append_left _ _⟩
  rw [himages] at hin
  rcases List.mem_append.mp hin with hold | hnew
  · exact hfollows.committed image hold
  · obtain ⟨w, hw, himage⟩ := List.mem_filterMap.mp hnew
    exact post_of_inserted (explained_run h0 hrun c) (image_eq_some.mp himage ▸ hw)

/-- What a run keeps: the invariant of the gallery, and that objects are there which have
been uploaded or read of. -/
structure ImagesKept (tr : List (Label C Op Reply)) (s : State C) : Prop where
  sound : (gallery tr s).Sound
  stored : ∀ c, ∀ key ∈ (imaging c tr).stored, (s.objects key).isSome = true
  shown : ∀ c, ∀ row ∈ (imaging c tr).shown, ∀ key ∈ row.keys, (s.objects key).isSome = true

/-- The images that a session reads have their objects. -/
theorem ImagesKept.viewed {s : State C} (h : ImagesKept tr s) {I : Tables → Prop}
    (hfollows : s.db.Follows I fun t t' => t.postImages ⊆ t'.postImages) {c : C}
    {row : PostImage} (hrow : row ∈ (s.db.view apply c).postImages) {key : String}
    (hkey : key ∈ row.keys) : (s.objects key).isSome = true := by
  have himages : (s.db.view apply c).postImages =
      ((s.db.session c).snapshot.getD s.db.committed).postImages ++
        (s.db.session c).writes.filterMap Write.image := foldl_inserts postImages_apply
  rw [himages] at hrow
  have hsource := (hfollows.source (fun t => List.Subset.refl t.postImages) c).2
  rcases List.mem_append.mp hrow with hold | hnew
  · exact h.sound.stored row (hsource hold) key hkey
  · have hpending := h.sound.pending c
    generalize hd : (gallery tr s).draft c = draft, hp : (gallery tr s).pending c = rows
      at hpending
    have hmem : row ∈ rows := hp ▸ hnew
    cases hpending with
    | none | drawn => cases hmem
    | inserted fileId row' _ hkeys =>
        obtain rfl := List.mem_singleton.mp hmem
        exact hkeys key hkey

/-- The invariant of an initial state: as in a gallery without drafts. -/
structure StoredImages (s : State C) : Prop where
  posts : PostsExist s.db.committed
  named : ∀ row ∈ s.db.committed.postImages,
    ∃ fileId ∈ s.fileIds, fileId.length = 36 ∧ row.Names fileId
  stored : ∀ row ∈ s.db.committed.postImages, ∀ key ∈ row.keys, (s.objects key).isSome = true
  disjoint : s.db.committed.postImages.Pairwise fun row row' => row.keys.Disjoint row'.keys

omit [DecidableEq C] in
theorem storedImages_empty {s : State C} (h : s.db.committed.postImages = []) :
    StoredImages s := by
  constructor <;> simp [PostsExist, h]

theorem imagesKept_start (h0 : Idle init) (hinit : StoredImages init) :
    ImagesKept [] init := by
  refine ⟨⟨?_, ?_, ?_, fun c => ?_, hinit.named, hinit.stored, hinit.disjoint⟩, ?_, ?_⟩
  · intro c fileId hc
    cases hc
  · intro c d fileId hc
    cases hc
  · intro c fileId hc
    cases hc
  · show Pending _ .none ((init.db.session c).writes.filterMap Write.image)
    rw [h0 c]
    exact .none
  · intro c key hkey
    cases hkey
  · intro c row hrow
    cases hrow

theorem imagesKept_run (h0 : Idle init) (hinit : StoredImages init)
    (h : Run (sem coll) anyStep (start dep who req init) tr cfg) :
    ImagesKept tr cfg.state := by
  refine Run.inv (fun tr cfg => ImagesKept tr cfg.state) (imagesKept_start h0 hinit) ?_ h
  intro tr cfg l cfg' hrun hkept hl _
  cases hl with
  | env henv =>
      obtain ⟨users, rfl⟩ := henv
      have hgallery : gallery (tr ++ [.env]) cfg.state = gallery tr cfg.state := by
        simp [gallery, imaging_env]
      refine ⟨?_, fun c => ?_, fun c => ?_⟩
      · show (gallery (tr ++ [.env]) cfg.state).Sound
        exact hgallery ▸ hkept.sound
      · rw [imaging_env]
        exact hkept.stored c
      · rw [imaging_env]
        exact hkept.shown c
  | @call c op k r s' hpool hstep =>
      have hs := gallery_step hrun (.call hpool hstep) (hkept.stored c)
      have hfollows := postsExist_run h0 hinit.posts hrun
      refine ⟨hkept.sound.step hs, fun d key hkey => ?_, fun d row hrow key hkey => ?_⟩
      · by_cases hd : d = c
        · subst hd
          rw [imaging_self] at hkey
          rcases Imaging.stored_next hkey with hold | ⟨data, contentType, _, he⟩
          · exact hs.present key (hkept.stored d key hold)
          · cases he
            obtain rfl := hstep
            simp
        · rw [imaging_ne (Ne.symm hd)] at hkey
          exact hs.present key (hkept.stored d key hkey)
      · by_cases hd : d = c
        · subst hd
          rw [imaging_self] at hrow
          rcases Imaging.shown_next hrow with hold | ⟨postId, rows, he, hmem⟩
          · exact hs.present key (hkept.shown d row hold key hkey)
          · cases he
            obtain ⟨⟨hperm, _⟩, rfl⟩ := hstep
            exact hkept.viewed hfollows (List.mem_filter.mp (hperm.mem_iff.mp hmem)).1 hkey
        · rw [imaging_ne (Ne.symm hd)] at hrow
          exact hs.present key (hkept.shown d row hrow key hkey)

/-- In a run of any requests, whatever fails, the committed image rows belong to posts
and name three objects each, which are in storage and which no other row names; and links
are signed for objects in storage only. -/
theorem images_never_dangle (h0 : Idle init) (hinit : StoredImages init)
    (h : Run (sem coll) anyStep (start dep who req init) tr cfg) :
    (∀ row ∈ cfg.state.db.committed.postImages,
        (∃ post ∈ cfg.state.db.committed.posts, post.postId = row.postId) ∧
          row.keys.Nodup ∧ ∀ key ∈ row.keys, (cfg.state.objects key).isSome = true) ∧
      (cfg.state.db.committed.postImages.Pairwise fun row row' =>
        row.keys.Disjoint row'.keys) ∧
      ∀ c key r cfg', Step (sem coll) cfg (.call c ⟨.presign key, r⟩) cfg' →
        (cfg.state.objects key).isSome = true := by
  have hkept := imagesKept_run h0 hinit h
  refine ⟨fun row hrow => ⟨?_, ?_, hkept.sound.stored row hrow⟩, hkept.sound.disjoint, ?_⟩
  · exact (postsExist_run h0 hinit.posts h).committed row hrow
  · obtain ⟨fileId, _, _, hnames⟩ := hkept.sound.named row hrow
    exact keys_nodup hnames
  · intro c key r cfg' hl
    have hadmits : (imaging c tr).Admits ⟨.presign key, r⟩ :=
      h.track_step (fun c => serve_draws dep (who c) (req c)) hl
    rcases hadmits with hstored | ⟨row, hrow, rfl⟩
    · exact hkept.stored c key hstored
    · exact hkept.shown c row hrow _ (by simp [PostImage.keys])

end Runs

/-! ## An upload and a listing -/

section Samples

open Infrastructure (binaryCollation)

def gallerySite : Deployment := ⟨sampleLibraries, true⟩

/-- The author adds an image while the moderator lists the images of the post. -/
def addAndList : Bool → Request
  | false => .uploadImage 3 photo
  | true => .listImages 3

def photoRow : PostImage :=
  ⟨10, 3, originalKey 3 photoId ".png", contentKey 3 photoId, thumbnailKey 3 photoId⟩

def adding : List BoardEvent :=
  [⟨.select (.user 5), .ok [spammer]⟩, ⟨.select (.activePost 3), .ok [badPost]⟩,
    ⟨.uuid4, .ok photoId⟩,
    ⟨.upload (originalKey 3 photoId ".png") [0] (some "image/png"), .ok ()⟩,
    ⟨.upload (contentKey 3 photoId) [1] (some "image/webp"), .ok ()⟩,
    ⟨.upload (thumbnailKey 3 photoId) [2] (some "image/webp"), .ok ()⟩,
    ⟨.insert (.postImage 3 (originalKey 3 photoId ".png") (contentKey 3 photoId)
      (thumbnailKey 3 photoId)), .ok (10 : Int)⟩,
    ⟨.select (.postImage 10), .ok [photoRow]⟩, ⟨.commit, .ok ()⟩,
    ⟨.presign (contentKey 3 photoId), .ok "url"⟩, ⟨.close, .ok ()⟩]

def showing : List BoardEvent :=
  [⟨.select (.user 9), .ok [moderator]⟩, ⟨.select (.activePost 3), .ok [badPost]⟩,
    ⟨.select (.postImages 3), .ok [photoRow]⟩, ⟨.presign (contentKey 3 photoId), .ok "url"⟩,
    ⟨.close, .ok ()⟩]

private theorem adding_run : ∃ tr cfg, Run (sem binaryCollation) anyStep
    (start gallerySite deleter addAndList board) tr cfg ∧
      (∀ c, (cfg.pool c).outcome = some (.ok ())) ∧
      cfg.state.db.committed.postImages = [photoRow] := by
  have hchain : ∃ s, Chain (sem binaryCollation) board
      (adding.map (.call false) ++ showing.map (.call true)) s ∧
      s.db.committed.postImages = [photoRow] := by
    refine ⟨_, .append (.call ⟨rfl, rfl⟩ (.call ⟨rfl, rfl⟩
      (.call ⟨by decide, by simp [board], rfl⟩ (.call rfl (.call rfl (.call rfl
        (.call ⟨rfl, 0, _, rfl, free_of_other ?_, rfl⟩ (.call ⟨rfl, rfl⟩ (.call rfl
          (.call rfl (.call rfl .nil)))))))))))
      (.call ⟨rfl, rfl⟩ (.call ⟨rfl, rfl⟩ (.call ⟨⟨.refl _, ?_⟩, rfl⟩ (.call rfl
        (.call rfl .nil))))), rfl⟩
    · decide
    · exact List.pairwise_singleton _ _
  obtain ⟨s, hchain, hs⟩ := hchain
  have hrun := Run.of_chain hchain
    (p := fun c => serve gallerySite (deleter c) (addAndList c)) (q := fun _ => .ret ()) ?_
  · exact ⟨_, _, hrun, fun _ => rfl, hs⟩
  · intro c
    cases c with
    | false =>
        simp only [own_append, own_map_self, own_map_ne Bool.false_ne_true.symm,
          List.append_nil]
        exact .cons (.cons (.cons (.cons (.cons (.cons (.cons (.cons (.cons (.cons
          (.cons .nil))))))))))
    | true =>
        simp only [own_append, own_map_self, own_map_ne Bool.false_ne_true,
          List.nil_append]
        exact .cons (.cons (.cons (.cons (.cons .nil))))

/-- The image that the listing signs a link to. -/
theorem images_never_dangle_sample : ∃ tr cfg,
    Run (sem binaryCollation) anyStep (start gallerySite deleter addAndList board) tr cfg ∧
      cfg.state.db.committed.postImages = [photoRow] ∧
      ∀ key ∈ photoRow.keys, (cfg.state.objects key).isSome = true := by
  obtain ⟨tr, cfg, hrun, _, hs⟩ := adding_run
  have hkept := (images_never_dangle idle_board (storedImages_empty rfl) hrun).1
  exact ⟨tr, cfg, hrun, hs, (hkept photoRow (by simp [hs])).2.2⟩

end Samples

end GreenCommunity.Board
