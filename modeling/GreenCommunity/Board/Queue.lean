import GreenCommunity.Base.TiedPages
import GreenCommunity.Board.Listing

/-!
# The queue of pending reports

The pages of the queue are sorted by the time of filing alone, which has whole seconds.
Reports of one second come in any order, another one for each page, so the pages show
every pending report once if the reports of each second fit on one page, and can show
one twice and another not at all if not.
-/

namespace GreenCommunity.Board

open GreenCommunity.Base
open GreenCommunity.Base.Prog
open GreenCommunity.Common
open GreenCommunity.Infrastructure (Collation)

section Queue

variable {C : Type} [DecidableEq C] {coll : Collation} {c : C} {t : Tables} {s : State C}
  {size : Nat}

/-- One page is a slice of the pending reports in some order. -/
theorem At.listReports (h : At c t [] s) (params : PageParams) :
    Always coll c s (listReports params) fun response =>
      ∃ sorted, Admits Report.createdAt (pendingRows t) sorted ∧
        response = .create (pageOf sorted params.size (params.page - 1))
          (pendingRows t).length params := by
  rw [Board.listReports, ReportService.listReports, ReportRepository.listReports,
    ReportRepository.countByTotalReports, bind_assoc]
  refine h.always fun reports s₁ hreports h₁ => ?_
  rw [bind_assoc]
  refine h₁.always fun total s₂ htotal _ => always_ret ?_
  obtain ⟨sorted, hperm, hsorted, rfl⟩ := hreports
  obtain rfl : total = (pendingRows t).length := htotal
  exact ⟨sorted, ⟨hperm, hsorted⟩, rfl⟩

/-- Every order is behind some response. -/
theorem responds_listReports {sorted : List Report}
    (hsorted : Admits Report.createdAt (pendingRows t) sorted) (params : PageParams) :
    Responds coll c t (listReports params) (.create
      (pageOf sorted params.size (params.page - 1)) (pendingRows t).length params) := by
  let s : State C := ⟨⟨t, fun _ => .idle⟩, fun _ => 0, fun _ => none, []⟩
  let s₁ : State C := { s with db := s.db.read c }
  have hat : At c t [] s := at_of_idle (s := s) rfl
  have hrows : (alone coll).step c s (.select (.pendingReports params.offset params.size))
      (.ok (pageOf sorted params.size (params.page - 1))) s₁ := by
    refine ⟨?_, rfl⟩
    rw [hat.view]
    exact ⟨sorted, hsorted.1, hsorted.2, rfl⟩
  have hcount : (alone coll).step c s₁ (.select .countPending)
      (.ok (pendingRows t).length) { s₁ with db := s₁.db.read c } := by
    refine ⟨?_, rfl⟩
    rw [hat.read.view]
    rfl
  exact ⟨s, _, _, hat, .call rfl hrows (.call rfl hcount (exec_ret.mpr ⟨rfl, rfl, rfl⟩))⟩

/-- The orders behind the pages that the database answers with. -/
theorem Pages.orders (hpos : 1 ≤ size) (hle : size ≤ 100)
    {response : Nat → PageResponse Report} (h : Pages coll c t size listReports response) :
    ∃ sorted : Nat → List Report, (∀ p, Admits Report.createdAt (pendingRows t) (sorted p)) ∧
      ∀ p, (response (p + 1)).items = pageOf (sorted p) size p ∧
        (response (p + 1)).totalPages = if (pendingRows t).length ≠ 0 then
          ((pendingRows t).length + size - 1) / size else 0 := by
  have hpage : ∀ p, ∃ sorted, Admits Report.createdAt (pendingRows t) sorted ∧
      response (p + 1) = .create (pageOf sorted size p) (pendingRows t).length
        ⟨p + 1, size, Nat.succ_pos p, hpos, hle⟩ := fun p =>
    (h ⟨p + 1, size, Nat.succ_pos p, hpos, hle⟩ rfl).always fun s hat => hat.listReports _
  choose sorted hadmits hresponse using hpage
  refine ⟨sorted, hadmits, fun p => ?_⟩
  rw [hresponse p]
  exact ⟨rfl, rfl⟩

/-- Whatever the order of each page, the pages of the queue show every pending report
exactly once, if and only if no page boundary splits reports of one second. -/
theorem queue_complete_iff (hreports : (t.reports.map Report.reportId).Nodup)
    (hpos : 1 ≤ size) (hle : size ≤ 100) :
    (∀ response, Pages coll c t size listReports response →
        (allItems response).Perm (pendingRows t)) ↔
      Unsplit Report.createdAt (pendingRows t) size := by
  have hnodup : (pendingRows t).Nodup := (List.Nodup.of_map _ hreports).filter _
  generalize hpages : (if (pendingRows t).length ≠ 0 then
    ((pendingRows t).length + size - 1) / size else 0) = pages
  have henough := (pages_bounds hpos hpages.symm).1
  rw [← pages_perm_iff Report.createdAt hnodup hpos henough]
  constructor
  · intro hall sorted hadmits
    let response : Nat → PageResponse Report := fun page =>
      ⟨pageOf (sorted (page - 1)) size (page - 1), (pendingRows t).length, page, size, pages⟩
    refine hall response fun params hsize => ?_
    have hresponds : Responds coll c t _ _ :=
      responds_listReports (hadmits (params.page - 1)) params
    subst hsize
    rw [PageResponse.create, hpages] at hresponds
    exact hresponds
  · intro hall response hresponse
    obtain ⟨sorted, hadmits, hitems⟩ := hresponse.orders hpos hle
    have htotal : (response 1).totalPages = pages := by
      rw [← hpages]
      exact (hitems 0).2
    rw [allItems, htotal]
    simp only [fun p => (hitems p).1]
    exact hall sorted hadmits

end Queue

/-! ## Two reports of one second -/

section Samples

open Infrastructure (binaryCollation)

/-- Another report of the second in which `complaint` was filed. -/
def secondComplaint : Report := { complaint with reportId := 2, reporterUserId := some 7 }

def backlog : Tables := ⟨[spammer, moderator], [badPost], [], [], [complaint, secondComplaint], []⟩

/-- The first page comes from one order of the two reports, the others from the other. -/
def backlogOrder : Nat → List Report
  | 0 => [complaint, secondComplaint]
  | _ => [secondComplaint, complaint]

theorem backlogOrder_admits (p : Nat) :
    Admits Report.createdAt (pendingRows backlog) (backlogOrder p) := by
  cases p with
  | zero => exact ⟨by decide, by decide⟩
  | succ p =>
      refine ⟨List.Perm.swap _ _ _, ?_⟩
      show [secondComplaint, complaint].Pairwise _
      decide

def backlogPages (page : Nat) : PageResponse Report :=
  ⟨pageOf (backlogOrder (page - 1)) 1 (page - 1), 2, page, 1, 2⟩

theorem pages_backlog :
    Pages binaryCollation () backlog 1 listReports backlogPages := by
  rintro ⟨page, size, hpage, hsize, hle⟩ rfl
  have hresponds : Responds binaryCollation () backlog _ _ :=
    responds_listReports (backlogOrder_admits (page - 1)) ⟨page, 1, hpage, hsize, hle⟩
  have hlength : (pendingRows backlog).length = 2 := by decide
  simpa [PageResponse.create, backlogPages, hlength] using hresponds

/-- With one report on a page, both pages may show the same one. -/
theorem report_never_shown : ∃ response,
    Pages binaryCollation () backlog 1 listReports response ∧
      ¬ (allItems response).Perm (pendingRows backlog) ∧
      secondComplaint ∈ pendingRows backlog ∧ secondComplaint ∉ allItems response := by
  have hshown : allItems backlogPages = [complaint, complaint] := by decide
  have hmem : secondComplaint ∈ pendingRows backlog := by decide
  have hmissed : secondComplaint ∉ allItems backlogPages := by
    rw [hshown]
    decide
  exact ⟨backlogPages, pages_backlog, fun h => hmissed (h.symm.subset hmem), hmem, hmissed⟩

/-- The pages of two reports each. -/
def widePages (page : Nat) : PageResponse Report :=
  ⟨pageOf [complaint, secondComplaint] 2 (page - 1), 2, page, 2, 1⟩

theorem pages_wide : Pages binaryCollation () backlog 2 listReports widePages := by
  rintro ⟨page, size, hpage, hsize, hle⟩ rfl
  have hresponds : Responds binaryCollation () backlog _ _ :=
    responds_listReports (backlogOrder_admits 0) ⟨page, 2, hpage, hsize, hle⟩
  have hlength : (pendingRows backlog).length = 2 := by decide
  simpa [PageResponse.create, widePages, hlength, backlogOrder] using hresponds

/-- On one page of two reports the queue is complete. -/
theorem queue_complete_sample :
    Pages binaryCollation () backlog 2 listReports widePages ∧
      (allItems widePages).Perm (pendingRows backlog) := by
  have hunsplit : Unsplit Report.createdAt (pendingRows backlog) 2 := by
    simp only [Unsplit]
    decide
  exact ⟨pages_wide,
    (queue_complete_iff (by decide) (by decide) (by decide)).mpr hunsplit _ pages_wide⟩

end Samples

end GreenCommunity.Board
