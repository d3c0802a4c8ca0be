import Riscbox.Collections.Spans
import Riscbox.Machine.Framebuffer

/-!
# The rows to draw again

The spans of a snapshot are the runs of its dirty pages, unless a run starts behind the
visible rows.
-/

namespace Riscbox
namespace Virtio
namespace Framebuffer

open Spans (runs)

/-- What `PlatformBus::new` has checked. -/
structure Accepted (fb : Framebuffer) : Prop where
  stride_pos : 0 < fb.stride
  height_pos : 0 < fb.height
  stride_ge : 4 ≤ fb.stride
  used_le : fb.height * fb.stride ≤ fb.size
  size_lt : fb.size < 2 ^ 32

theorem checkedU32_eq_some {n m : Nat} : checkedU32 n = some m ↔ n < 2 ^ 32 ∧ n = m := by
  unfold checkedU32
  rw [Option.ite_none_right_eq_some, Option.some_inj]

theorem accepted_new {width height : Nat} {fb : Framebuffer} (h : new width height = .ok fb) :
    fb.Accepted := by
  unfold new at h
  obtain ⟨stride, hstride, h⟩ := Outcome.bind_eq_ok.mp h
  obtain ⟨used, hused, h⟩ := Outcome.bind_eq_ok.mp h
  rw [Outcome.okOr_eq_ok, checkedU32_eq_some] at hstride hused
  split at h
  · cases h
  next hne =>
  obtain ⟨size, hsize, h⟩ := Outcome.bind_eq_ok.mp h
  rw [Outcome.okOr_eq_ok, checkedU32_eq_some] at hsize
  cases h
  obtain ⟨-, rfl⟩ := hstride
  obtain ⟨-, rfl⟩ := hused
  obtain ⟨hlt, rfl⟩ := hsize
  have hheight : 0 < height := Nat.pos_of_ne_zero fun hzero => hne (by rw [hzero, Nat.zero_mul])
  have hwidth : 0 < width := by
    apply Nat.pos_of_ne_zero
    intro hzero
    apply hne
    rw [hzero, Nat.zero_mul, Nat.mul_zero]
  constructor
  · show 0 < width * 4
    omega
  · exact hheight
  · show 4 ≤ width * 4
    omega
  · show height * (width * 4) ≤ (height * (width * 4) + 0xffff) / 0x10000 * 0x10000
    omega
  · show (height * (width * 4) + 0xffff) / 0x10000 * 0x10000 < 2 ^ 32
    omega

/-! ## Pages and rows -/

/-- A byte of the page is in a row below the height. -/
def Visible (fb : Framebuffer) (page : Nat) : Prop := page * 4096 < fb.height * fb.stride

instance (fb : Framebuffer) (page : Nat) : Decidable (fb.Visible page) :=
  inferInstanceAs (Decidable (_ < _))

/-- The row has a byte in the page. -/
def Shares (fb : Framebuffer) (row page : Nat) : Prop :=
  ∃ byte, byte / 4096 = page ∧ byte / fb.stride = row

variable {fb : Framebuffer} {page later row : Nat}

section Rows

variable (h : fb.Accepted)
include h

omit h in
theorem firstRow_mono (hle : page ≤ later) : fb.firstRow page ≤ fb.firstRow later :=
  Nat.div_le_div_right (Nat.mul_le_mul_right 4096 hle)

omit h in
theorem endRow_mono (hle : page ≤ later) : fb.endRow page ≤ fb.endRow later := by
  have hbyte : min (page * 4096 + 4095) (fb.size - 1) ≤ min (later * 4096 + 4095) (fb.size - 1) := by
    omega
  have hrow := Nat.div_le_div_right (c := fb.stride) hbyte
  unfold endRow
  omega

theorem firstRow_lt_iff : fb.firstRow page < fb.height ↔ fb.Visible page :=
  Nat.div_lt_iff_lt_mul h.stride_pos

theorem firstRow_lt_endRow (hvisible : fb.Visible page) :
    fb.firstRow page < fb.endRow page := by
  have hused := h.used_le
  have hbyte : page * 4096 ≤ min (page * 4096 + 4095) (fb.size - 1) := by
    unfold Visible at hvisible
    omega
  have hrow := Nat.div_le_div_right (c := fb.stride) hbyte
  have hfirst := (firstRow_lt_iff h).mpr hvisible
  unfold firstRow at hfirst ⊢
  unfold endRow
  omega

theorem endRow_padding (hpadding : ¬fb.Visible page) (hpage : page * 4096 < fb.size) :
    fb.height ≤ fb.firstRow page ∧ fb.endRow page = fb.height := by
  have hfirst : fb.height ≤ fb.firstRow page :=
    Nat.not_lt.mp fun hlt => hpadding ((firstRow_lt_iff h).mp hlt)
  have hbyte : page * 4096 ≤ min (page * 4096 + 4095) (fb.size - 1) := by omega
  have hrow := Nat.div_le_div_right (c := fb.stride) hbyte
  refine ⟨hfirst, ?_⟩
  unfold firstRow at hfirst
  unfold endRow
  omega

omit h in
theorem endRow_le : fb.endRow page ≤ fb.height := Nat.min_le_right _ _

theorem rows_lt (hpage : page * 4096 < fb.size) :
    fb.firstRow page < 2 ^ 30 ∧ fb.height < 2 ^ 30 ∧
      min (page * 4096 + 4095) (fb.size - 1) / fb.stride + 1 ≤ 2 ^ 30 := by
  have hsize := h.size_lt
  have hstride := h.stride_ge
  have hused := h.used_le
  have hfour : fb.height * 4 ≤ fb.height * fb.stride := Nat.mul_le_mul_left _ hstride
  have hfirst := Nat.div_le_div_left (a := page * 4096) hstride (by decide)
  have hend := Nat.div_le_div_left (a := min (page * 4096 + 4095) (fb.size - 1)) hstride (by decide)
  unfold firstRow
  omega

/-- A visible row that shares a byte with a page lies in the rows of the page. -/
theorem shares_rows (hrow : row < fb.height) (hshares : fb.Shares row page) :
    fb.firstRow page ≤ row ∧ row < fb.endRow page := by
  obtain ⟨byte, rfl, rfl⟩ := hshares
  have hused := h.used_le
  have hlt : byte < fb.height * fb.stride := (Nat.div_lt_iff_lt_mul h.stride_pos).mp hrow
  have hbefore : byte / 4096 * 4096 ≤ byte := Nat.div_mul_le_self _ _
  have hafter : byte ≤ min (byte / 4096 * 4096 + 4095) (fb.size - 1) := by omega
  have hfirst := Nat.div_le_div_right (c := fb.stride) hbefore
  have hend := Nat.div_le_div_right (c := fb.stride) hafter
  unfold firstRow endRow
  omega

end Rows

/-! ## The runs of dirty pages -/

/-- The dirty pages of a snapshot that lie in the framebuffer. -/
def dirtyPages (fb : Framebuffer) (snapshot : List (BitVec 32)) : List Nat :=
  (pagesFrom 0 snapshot).filter (· * 4096 < fb.size)

/-- The first row of a page is at most three rows behind the rows of another. -/
def near (fb : Framebuffer) (page later : Nat) : Bool :=
  decide (fb.firstRow later ≤ fb.endRow page + 3)

/-- A run of dirty pages as rows. -/
def spanOf (fb : Framebuffer) (run : List Nat) : RedrawSpan :=
  ⟨fb.firstRow (run.headD 0), fb.endRow (run.getLastD 0) - fb.firstRow (run.headD 0)⟩

/-- The first page of the run has visible rows. -/
def Anchored (fb : Framebuffer) (run : List Nat) : Prop := ∀ first ∈ run.head?, fb.Visible first

/-- What becomes of a run that is not anchored: an overflow, or an empty span at the end. -/
def Broken (fb : Framebuffer) (outcome : Drawn (List RedrawSpan)) : Prop :=
  outcome = .err .overflow ∨
    ∃ spans, outcome = .ok spans ∧ spans.getLast? = some ⟨fb.height, 0⟩

section Loop

variable (h : fb.Accepted) {pages run : List Nat} {before : List (List Nat)}
  {result : List RedrawSpan} {last : RedrawSpan}

theorem addPages_append (first rest : List Nat) :
    fb.addPages result (first ++ rest) = fb.addPages result first >>= fun result =>
      fb.addPages result rest := by
  induction first generalizing result with
  | nil => rfl
  | cons page first ih =>
    show (fb.addPage result page >>= fun result => fb.addPages result (first ++ rest)) = _
    cases hpage : fb.addPage result page with
    | ok next =>
      rw [Outcome.ok_bind, ih]
      show _ = (fb.addPage result page >>= _) >>= _
      rw [hpage]
      rfl
    | err e =>
      show _ = (fb.addPage result page >>= _) >>= _
      rw [hpage]
      rfl
    | panic =>
      show _ = (fb.addPage result page >>= _) >>= _
      rw [hpage]
      rfl

theorem addPages_snoc (page : Nat) :
    fb.addPages result (pages ++ [page]) = fb.addPages result pages >>= fun result =>
      fb.addPage result page := by
  rw [addPages_append]
  congr 1
  funext result
  show (fb.addPage result page >>= fun result => fb.addPages result []) = _
  cases fb.addPage result page <;> rfl

/-- Pages behind the framebuffer are skipped. -/
theorem addPages_filter (pages : List Nat) :
    fb.addPages result (pages.filter (· * 4096 < fb.size)) = fb.addPages result pages := by
  induction pages generalizing result with
  | nil => rfl
  | cons page pages ih =>
    by_cases hpage : page * 4096 < fb.size
    · rw [List.filter_cons, if_pos (by simpa using hpage)]
      show (fb.addPage result page >>= fun result => fb.addPages result _) =
        fb.addPage result page >>= fun result => fb.addPages result pages
      cases fb.addPage result page with
      | ok next => exact ih
      | err e => rfl
      | panic => rfl
    · rw [List.filter_cons, if_neg (by simpa using hpage), ih]
      have hskip : fb.addPage result page = .ok result := if_pos (Nat.not_lt.mp hpage)
      show _ = fb.addPage result page >>= _
      rw [hskip]
      rfl

include h

/-- A page opens a span. -/
theorem addPage_open (hpage : page * 4096 < fb.size)
    (hlast : ∀ last ∈ result.getLast?, last.y + last.height ≤ fb.height ∧
      last.y + last.height + 3 < fb.firstRow page) :
    fb.addPage result page = (differenceU32 (fb.endRow page) (fb.firstRow page) >>= fun height =>
      pure (result ++ [⟨fb.firstRow page, height⟩])) := by
  obtain ⟨hfirst, hheight, hend⟩ := rows_lt h hpage
  unfold addPage
  rw [if_neg (Nat.not_le.mpr hpage), if_neg (by omega), if_neg (by omega)]
  cases hresult : result.getLast? with
  | none => rfl
  | some last =>
    obtain ⟨hle, hfar⟩ := hlast last hresult
    dsimp only
    rw [sumU32, if_pos (by omega), Outcome.ok_bind, sumU32, if_pos (by omega), Outcome.ok_bind,
      if_neg (by omega)]

/-- A page joins the last span. -/
theorem addPage_join (hpage : page * 4096 < fb.size) (hresult : result.getLast? = some last)
    (hle : last.y + last.height ≤ fb.height) (hnear : fb.firstRow page ≤ last.y + last.height + 3)
    (hgrow : last.y + last.height ≤ fb.endRow page) :
    fb.addPage result page =
      .ok (result.dropLast ++ [{ last with height := fb.endRow page - last.y }]) := by
  obtain ⟨hfirst, hheight, hend⟩ := rows_lt h hpage
  have hmax : max last.height (fb.endRow page - last.y) = fb.endRow page - last.y := by omega
  unfold addPage
  rw [if_neg (Nat.not_le.mpr hpage), if_neg (by omega), if_neg (by omega), hresult]
  dsimp only
  rw [sumU32, if_pos (by omega), Outcome.ok_bind, sumU32, if_pos (by omega), Outcome.ok_bind,
    if_pos hnear, differenceU32, if_pos (by omega), Outcome.ok_bind, hmax]
  rfl

/-- The span that a page opens. -/
theorem open_cases (result : List RedrawSpan) (hpage : page * 4096 < fb.size) :
    (fb.Visible page → (differenceU32 (fb.endRow page) (fb.firstRow page) >>= fun height =>
      (pure (result ++ [⟨fb.firstRow page, height⟩]) : Drawn (List RedrawSpan))) =
        .ok (result ++ [fb.spanOf [page]])) ∧
    (¬fb.Visible page → fb.Broken (differenceU32 (fb.endRow page) (fb.firstRow page) >>=
      fun height => pure (result ++ [⟨fb.firstRow page, height⟩]))) := by
  constructor
  · intro hvisible
    have hlt := firstRow_lt_endRow h hvisible
    rw [differenceU32, if_pos (Nat.le_of_lt hlt), Outcome.ok_bind]
    rfl
  · intro hpadding
    obtain ⟨hfirst, hend⟩ := endRow_padding h hpadding hpage
    rw [hend, differenceU32]
    by_cases hle : fb.firstRow page ≤ fb.height
    · have hequal : fb.firstRow page = fb.height := Nat.le_antisymm hle hfirst
      rw [if_pos hle, Outcome.ok_bind, hequal, Nat.sub_self]
      exact .inr ⟨_, rfl, List.getLast?_concat⟩
    · rw [if_neg hle]
      exact .inl rfl

/-- A broken result stays broken: what follows is padding. -/
theorem broken_addPage {outcome : Drawn (List RedrawSpan)} (hbroken : fb.Broken outcome)
    (hpadding : ¬fb.Visible page) (hpage : page * 4096 < fb.size) :
    fb.Broken (outcome >>= fun result => fb.addPage result page) := by
  obtain ⟨hfirst, hend⟩ := endRow_padding h hpadding hpage
  rcases hbroken with rfl | ⟨spans, rfl, hlast⟩
  · exact .inl rfl
  · rw [Outcome.ok_bind]
    by_cases hnear : fb.firstRow page ≤ fb.height + 0 + 3
    · rw [addPage_join h hpage hlast (Nat.le_refl _) hnear (by show fb.height + 0 ≤ _; omega),
        hend, Nat.sub_self]
      exact .inr ⟨_, rfl, List.getLast?_concat⟩
    · have hfar : ∀ last ∈ spans.getLast?, last.y + last.height ≤ fb.height ∧
          last.y + last.height + 3 < fb.firstRow page := by
        intro last hmem
        rw [hlast] at hmem
        cases hmem
        exact ⟨Nat.le_refl _, Nat.not_le.mp hnear⟩
      rw [addPage_open h hpage hfar]
      exact (open_cases h _ hpage).2 hpadding

theorem spanOf_end {run : List Nat} (hsorted : run.Pairwise (· < ·)) {first last : Nat}
    (hfirst : run.head? = some first) (hlast : run.getLast? = some last)
    (hvisible : fb.Visible first) :
    fb.spanOf run = ⟨fb.firstRow first, fb.endRow last - fb.firstRow first⟩ ∧
      fb.firstRow first < fb.endRow last := by
  have hhead : run.headD 0 = first := by rw [List.headD_eq_head?_getD, hfirst]; rfl
  have hend : run.getLastD 0 = last := by rw [List.getLastD_eq_getLast?, hlast]; rfl
  have hle : first ≤ last :=
    (Spans.sorted_bounds hsorted hfirst hlast (List.mem_of_getLast? hlast)).1
  have hrows := firstRow_lt_endRow h hvisible
  have hmono : fb.endRow first ≤ fb.endRow last := endRow_mono hle
  refine ⟨?_, by omega⟩
  unfold spanOf
  rw [hhead, hend]

/-- The last span of anchored runs ends with the rows of the last page. -/
theorem lastSpan (hsorted : pages.Pairwise (· < ·))
    (hall : ∀ run ∈ runs fb.near pages, fb.Anchored run)
    (hruns : runs fb.near pages = before ++ [run]) {final : Nat}
    (hrun : run.getLast? = some final) :
    ((runs fb.near pages).map fb.spanOf).getLast? =
        some ⟨fb.firstRow (run.headD 0), fb.endRow final - fb.firstRow (run.headD 0)⟩ ∧
      fb.firstRow (run.headD 0) < fb.endRow final := by
  have hmem : run ∈ runs fb.near pages := by
    rw [hruns]
    exact List.mem_append_right _ (List.mem_singleton_self _)
  cases hhead : run.head? with
  | none =>
    rw [List.head?_eq_none_iff.mp hhead] at hrun
    cases hrun
  | some first =>
    have hfirst : run.headD 0 = first := by rw [List.headD_eq_head?_getD, hhead]; rfl
    obtain ⟨hspan, hlt⟩ := spanOf_end h ((Spans.pairwise_runs hsorted).1 run hmem) hhead hrun
      (hall run hmem first hhead)
    rw [hruns, List.map_append, List.map_singleton, List.getLast?_concat, hspan, hfirst]
    exact ⟨rfl, hlt⟩

/-- The loop over sorted pages makes a span of each run, or breaks at the first run that is
not anchored. -/
theorem addPages_runs (pages : List Nat) :
    pages.Pairwise (· < ·) → (∀ page ∈ pages, page * 4096 < fb.size) →
      ((∀ run ∈ runs fb.near pages, fb.Anchored run) →
        fb.addPages [] pages = .ok ((runs fb.near pages).map fb.spanOf)) ∧
      (¬(∀ run ∈ runs fb.near pages, fb.Anchored run) → fb.Broken (fb.addPages [] pages)) := by
  induction pages using List.reverseRecOn with
  | nil =>
    intro _ _
    exact ⟨fun _ => rfl, fun hnone => absurd (fun run hrun => absurd hrun List.not_mem_nil) hnone⟩
  | append_singleton pages page ih =>
    intro hsorted hinside
    obtain ⟨hpages, -, hbelow⟩ := List.pairwise_append.mp hsorted
    have hpage : page * 4096 < fb.size :=
      hinside page (List.mem_append_right _ (List.mem_singleton_self _))
    obtain ⟨hok, hbroken⟩ := ih hpages fun other hother =>
      hinside other (List.mem_append_left _ hother)
    have hheads : (∀ run ∈ runs fb.near (pages ++ [page]), fb.Anchored run) ↔
        (∀ run ∈ runs fb.near pages, fb.Anchored run) ∧
          ((∀ last ∈ pages.getLast?, fb.near last page = false) → fb.Visible page) :=
      Spans.heads_snoc
    rw [addPages_snoc, hheads]
    by_cases hall : ∀ run ∈ runs fb.near pages, fb.Anchored run
    · rw [hok hall, Outcome.ok_bind]
      by_cases hopen : ∀ last ∈ pages.getLast?, fb.near last page = false
      · -- the page opens a span
        have hfar : ∀ last ∈ ((runs fb.near pages).map fb.spanOf).getLast?,
            last.y + last.height ≤ fb.height ∧ last.y + last.height + 3 < fb.firstRow page := by
          intro last hlast
          rcases Spans.runs_cases fb.near pages with rfl | ⟨before, run, final, hruns, hrun, hfinal⟩
          · cases hlast
          · obtain ⟨hend, hle⟩ := lastSpan h hpages hall hruns hrun
            rw [hend] at hlast
            cases hlast
            have hnot := hopen final hfinal
            unfold near at hnot
            rw [decide_eq_false_iff_not] at hnot
            have hheight : fb.endRow final ≤ fb.height := endRow_le
            constructor
            · show fb.firstRow _ + (fb.endRow final - fb.firstRow _) ≤ fb.height
              omega
            · show fb.firstRow _ + (fb.endRow final - fb.firstRow _) + 3 < _
              omega
        rw [addPage_open h hpage hfar, Spans.runs_open hopen, List.map_append]
        obtain ⟨hvisible, hpadding⟩ := open_cases h ((runs fb.near pages).map fb.spanOf) hpage
        exact ⟨fun hgood => hvisible (hgood.2 hopen),
          fun hbad => hpadding fun hpage => hbad ⟨hall, fun _ => hpage⟩⟩
      · -- the page joins the last span
        refine ⟨fun _ => ?_, fun hbad => absurd ⟨hall, fun hall => absurd hall hopen⟩ hbad⟩
        rcases Spans.runs_cases fb.near pages with rfl | ⟨before, run, final, hruns, hrun, hfinal⟩
        · exact absurd (fun last hlast => by cases hlast) hopen
        have hnear := Spans.near_of_not_open hopen hfinal
        unfold near at hnear
        rw [decide_eq_true_iff] at hnear
        have hmem : final ∈ pages := List.mem_of_getLast? hfinal
        have hlt : final < page := hbelow final hmem page (List.mem_singleton_self _)
        have hrows : fb.endRow final ≤ fb.endRow page := endRow_mono (Nat.le_of_lt hlt)
        have hheight : fb.endRow final ≤ fb.height := endRow_le
        obtain ⟨hend, hle⟩ := lastSpan h hpages hall hruns hrun
        rw [addPage_join h hpage hend (by show fb.firstRow _ + (fb.endRow final - _) ≤ _; omega)
          (by show _ ≤ fb.firstRow _ + (fb.endRow final - _) + 3; omega)
          (by show fb.firstRow _ + (fb.endRow final - _) ≤ _; omega),
          Spans.runs_join hruns hrun (Spans.near_of_not_open hopen hfinal), hruns,
          List.map_append, List.map_singleton, List.dropLast_concat, List.map_append,
          List.map_singleton]
        have hne : run ≠ [] := by
          rintro rfl
          cases hrun
        have hspan : fb.spanOf (run ++ [page]) =
            ⟨fb.firstRow (run.headD 0), fb.endRow page - fb.firstRow (run.headD 0)⟩ := by
          unfold spanOf
          rw [List.headD_eq_head?_getD, List.head?_append_of_ne_nil _ hne,
            List.getLastD_eq_getLast?, List.getLast?_concat, List.headD_eq_head?_getD]
          rfl
        rw [hspan]
    · -- a page of a run that is not anchored is padding, and so is every later one
      refine ⟨fun hgood => absurd hgood.1 hall, fun _ => ?_⟩
      have hpadding : ¬fb.Visible page := by
        intro hvisible
        apply hall
        intro run hrun first hfirst
        have hmem : first ∈ pages := by
          rw [← Spans.runs_flatten fb.near pages]
          exact List.mem_flatten.mpr ⟨run, hrun, List.mem_of_head? hfirst⟩
        have hlt := hbelow first hmem page (List.mem_singleton_self _)
        exact Nat.lt_trans (Nat.mul_lt_mul_of_pos_right hlt (by decide)) hvisible
      exact broken_addPage h (hbroken hall) hpadding hpage

end Loop

/-! ## The dirty pages -/

/-- The bit of the page is set. -/
def Dirty (snapshot : List (BitVec 32)) (page : Nat) : Prop :=
  (snapshot.getD (page / 32) 0).getLsbD (page % 32) = true

theorem mem_pagesFrom (snapshot : List (BitVec 32)) : ∀ index,
    page ∈ pagesFrom index snapshot ↔
      index * 32 ≤ page ∧
        (snapshot.getD (page / 32 - index) 0).getLsbD (page % 32) = true := by
  induction snapshot with
  | nil =>
    intro index
    simp [pagesFrom]
  | cons word rest ih =>
    intro index
    rw [pagesFrom, List.mem_append, ih (index + 1)]
    simp only [List.mem_map, List.mem_filter, List.mem_range]
    by_cases hword : page / 32 = index
    · have hhere : page / 32 - index = 0 := by omega
      rw [hhere]
      constructor
      · rintro (⟨bit, ⟨hlt, hbit⟩, rfl⟩ | ⟨hle, -⟩)
        · have hmod : (index * 32 + bit) % 32 = bit := by omega
          rw [hmod]
          exact ⟨by omega, hbit⟩
        · omega
      · rintro ⟨hle, hbit⟩
        exact .inl ⟨page % 32, ⟨Nat.mod_lt _ (by decide), hbit⟩, by omega⟩
    · constructor
      · rintro (⟨bit, ⟨hlt, hbit⟩, rfl⟩ | ⟨hle, hbit⟩)
        · omega
        · have hnext : page / 32 - index = page / 32 - (index + 1) + 1 := by omega
          rw [hnext, List.getD_cons_succ]
          exact ⟨by omega, hbit⟩
      · rintro ⟨hle, hbit⟩
        have hnext : page / 32 - index = page / 32 - (index + 1) + 1 := by omega
        rw [hnext, List.getD_cons_succ] at hbit
        exact .inr ⟨by omega, hbit⟩

theorem sorted_pagesFrom (snapshot : List (BitVec 32)) : ∀ index,
    (pagesFrom index snapshot).Pairwise (· < ·) := by
  induction snapshot with
  | nil =>
    intro index
    exact List.Pairwise.nil
  | cons word rest ih =>
    intro index
    rw [pagesFrom]
    apply List.pairwise_append.mpr
    refine ⟨?_, ih (index + 1), ?_⟩
    · rw [List.pairwise_map]
      apply List.Pairwise.imp (R := (· < ·)) (fun hlt => by omega)
      exact (List.pairwise_lt_range).filter _
    · intro first hfirst later hlater
      obtain ⟨bit, hbit, rfl⟩ := List.mem_map.mp hfirst
      have hlt := List.mem_range.mp (List.mem_filter.mp hbit).1
      have hle := ((mem_pagesFrom rest (index + 1)).mp hlater).1
      omega

theorem mem_dirtyPages {snapshot : List (BitVec 32)} :
    page ∈ fb.dirtyPages snapshot ↔ Dirty snapshot page ∧ page * 4096 < fb.size := by
  unfold dirtyPages Dirty
  rw [List.mem_filter, mem_pagesFrom, decide_eq_true_iff]
  simp

/-! ## The bytes behind a span -/

/-- The byte lies in main memory, which is found first. -/
def InMainRam (ramSize address : Nat) : Prop :=
  Machine.ramBase ≤ address ∧ address < Machine.ramBase + ramSize

section Updates

variable {ramSize address len : Nat} {devices memory : GuestMemory}

theorem readBytes_found {range : PhysMemoryRange} {rest : GuestMemory}
    (hholds : range.holds address = true) (hram : range.isRam = true) :
    (∃ bytes, GuestMemory.readBytes address len (range :: rest) = some bytes) ↔
      address + len ≤ range.addr + range.size := by
  have hat : range.addr ≤ address ∧ address < range.addr + range.size :=
    of_decide_eq_true hholds
  have hallows : range.Allows address len false ↔ address + len ≤ range.addr + range.size := by
    unfold PhysMemoryRange.Allows
    constructor
    · rintro ⟨-, -, hlen⟩
      omega
    · intro hlen
      exact ⟨hram, fun hwrite => Bool.false_ne_true hwrite.1, by omega⟩
  unfold GuestMemory.readBytes
  rw [if_pos hholds, ← hallows]
  by_cases hfits : range.Allows address len false
  · rw [if_pos hfits]
    exact ⟨fun _ => hfits, fun _ => ⟨_, rfl⟩⟩
  · rw [if_neg hfits]
    constructor
    · rintro ⟨bytes, hbytes⟩
      cases hbytes
    · exact fun hallowed => absurd hallowed hfits

theorem readBytes_missed {range : PhysMemoryRange} {rest : GuestMemory}
    (hholds : ¬range.holds address = true) :
    GuestMemory.readBytes address len (range :: rest) = rest.readBytes address len :=
  if_neg hholds

/-- Which ranges a read of the framebuffer can find. -/
theorem readBytes_framebuffer (len : Nat) (hranges : SameRanges (fb.memory ramSize devices) memory)
    (hbase : base ≤ address) (hinside : address < base + fb.size) :
    (∃ bytes, memory.readBytes address len = some bytes) ↔
      (InMainRam ramSize address → address + len ≤ Machine.ramBase + ramSize) ∧
        (¬InMainRam ramSize address → address + len ≤ base + fb.size) := by
  unfold SameRanges Framebuffer.memory at hranges
  rw [List.map_cons, List.map_cons, List.map_cons] at hranges
  obtain ⟨main, rest, rfl, hmain, hrest⟩ := List.map_eq_cons_iff.mp hranges
  obtain ⟨low, rest, rfl, hlow, hrest⟩ := List.map_eq_cons_iff.mp hrest
  obtain ⟨frame, rest, rfl, hframe, -⟩ := List.map_eq_cons_iff.mp hrest
  simp only [registerRam, Prod.mk.injEq] at hmain hlow hframe
  obtain ⟨hmainAddr, hmainSize, hmainRam, hmainRom⟩ := hmain
  obtain ⟨hlowAddr, hlowSize, -, -⟩ := hlow
  obtain ⟨hframeAddr, hframeSize, hframeRam, hframeRom⟩ := hframe
  have hmainHolds : main.holds address = true ↔ InMainRam ramSize address := by
    unfold PhysMemoryRange.holds InMainRam
    rw [decide_eq_true_iff, hmainAddr, hmainSize]
  have hlowMisses : ¬low.holds address = true := by
    unfold PhysMemoryRange.holds
    rw [decide_eq_true_iff, hlowAddr, hlowSize]
    unfold base at hbase
    unfold resetRamSize
    omega
  have hframeHolds : frame.holds address = true := by
    unfold PhysMemoryRange.holds
    rw [decide_eq_true_iff, hframeAddr, hframeSize]
    exact ⟨hbase, hinside⟩
  by_cases hin : InMainRam ramSize address
  · rw [readBytes_found (hmainHolds.mpr hin) hmainRam, hmainAddr, hmainSize]
    exact ⟨fun hfits => ⟨fun _ => hfits, fun hout => absurd hin hout⟩, fun hall => hall.1 hin⟩
  · rw [readBytes_missed (mt hmainHolds.mp hin), readBytes_missed hlowMisses,
      readBytes_found hframeHolds hframeRam, hframeAddr, hframeSize]
    exact ⟨fun hfits => ⟨fun hmain => absurd hmain hin, fun _ => hfits⟩, fun hall => hall.2 hin⟩

/-- A span of visible rows has its update unless it leaves the main memory. -/
theorem framebufferUpdate_iff (h : fb.Accepted)
    (hranges : SameRanges (fb.memory ramSize devices) memory) {span : RedrawSpan}
    (hpos : 0 < span.height) (hrows : span.y + span.height ≤ fb.height) :
    (∃ update, fb.framebufferUpdate memory span = .ok update) ↔
      (InMainRam ramSize (base + span.y * fb.stride) →
        base + (span.y + span.height) * fb.stride ≤ Machine.ramBase + ramSize) := by
  have hused := h.used_le
  have hsize := h.size_lt
  have hsum : (span.y + span.height) * fb.stride =
      span.y * fb.stride + span.height * fb.stride := Nat.add_mul _ _ _
  have hle : (span.y + span.height) * fb.stride ≤ fb.height * fb.stride :=
    Nat.mul_le_mul_right _ hrows
  have hlen : 0 < span.height * fb.stride := Nat.mul_pos hpos h.stride_pos
  have hinside : base + span.y * fb.stride < base + fb.size := by omega
  have hread := fun len => readBytes_framebuffer len hranges (Nat.le_add_right _ _) hinside
  have hcondition : (InMainRam ramSize (base + span.y * fb.stride) →
      base + (span.y + span.height) * fb.stride ≤ Machine.ramBase + ramSize) ↔
      ∃ bytes, memory.readBytes (base + span.y * fb.stride) (span.height * fb.stride) =
        some bytes := by
    rw [hread, hsum, ← Nat.add_assoc]
    constructor
    · exact fun hmain => ⟨hmain, fun _ => by omega⟩
    · exact fun hboth => hboth.1
  have hoffset : checkedU32 (span.y * fb.stride) = some (span.y * fb.stride) :=
    if_pos (by omega)
  have hlength : checkedU32 (span.height * fb.stride) = some (span.height * fb.stride) :=
    if_pos (by omega)
  rw [hcondition]
  unfold framebufferUpdate
  rw [hoffset, hlength, Outcome.okOr_some, Outcome.ok_bind, Outcome.okOr_some, Outcome.ok_bind]
  cases hbytes : memory.readBytes (base + span.y * fb.stride) (span.height * fb.stride) with
  | none =>
    constructor
    · rintro ⟨update, hupdate⟩
      cases hupdate
    · rintro ⟨bytes, hsome⟩
      cases hsome
  | some bytes => exact ⟨fun _ => ⟨bytes, rfl⟩, fun _ => ⟨_, rfl⟩⟩

end Updates

/-! ## What a snapshot draws again -/

/-- The spans show what a snapshot can have changed, and each has its update. -/
structure Redrawn (fb : Framebuffer) (memory : GuestMemory) (snapshot : List (BitVec 32))
    (spans : List RedrawSpan) : Prop where
  taken : fb.takeRedrawSpans snapshot = .ok spans
  rows : ∀ span ∈ spans, 0 < span.height ∧ span.y + span.height ≤ fb.height
  sorted : spans.Pairwise fun span later => span.y + span.height ≤ later.y
  covered : ∀ row page, row < fb.height → Dirty snapshot page → fb.Shares row page →
    ∃ span ∈ spans, span.y ≤ row ∧ row < span.y + span.height
  visible : ∀ span ∈ spans, ∃ page,
    Dirty snapshot page ∧ fb.Visible page ∧ span.y = fb.firstRow page
  updates : ∀ span ∈ spans, ∃ update, fb.framebufferUpdate memory span = .ok update

/-- Each run of dirty pages starts with a page that has visible rows, and a run that starts
in main memory ends in it. -/
def RunsFit (fb : Framebuffer) (ramSize : Nat) (snapshot : List (BitVec 32)) : Prop :=
  ∀ run ∈ runs fb.near (fb.dirtyPages snapshot), ∀ first ∈ run.head?, ∀ last ∈ run.getLast?,
    fb.Visible first ∧
      (InMainRam ramSize (base + fb.firstRow first * fb.stride) →
        base + fb.endRow last * fb.stride ≤ Machine.ramBase + ramSize)

section Exact

variable {ramSize : Nat} {devices memory : GuestMemory} {snapshot : List (BitVec 32)}

theorem sorted_dirtyPages : (fb.dirtyPages snapshot).Pairwise (· < ·) :=
  (sorted_pagesFrom snapshot 0).filter _

theorem inside_dirtyPages : ∀ page ∈ fb.dirtyPages snapshot, page * 4096 < fb.size :=
  fun _ hpage => (mem_dirtyPages.mp hpage).2

/-- The ends of a run of dirty pages. -/
theorem run_ends {run : List Nat} (hrun : run ∈ runs fb.near (fb.dirtyPages snapshot)) :
    ∃ first last, run.head? = some first ∧ run.getLast? = some last ∧
      Dirty snapshot first ∧ run.Pairwise (· < ·) := by
  have hne : run ≠ [] := Spans.ne_nil_of_mem hrun
  refine ⟨run.head hne, run.getLast hne, List.head?_eq_some_head hne,
    List.getLast?_eq_some_getLast hne, ?_, (Spans.pairwise_runs sorted_dirtyPages).1 run hrun⟩
  have hmem : run.head hne ∈ fb.dirtyPages snapshot := by
    rw [← Spans.runs_flatten fb.near (fb.dirtyPages snapshot)]
    exact List.mem_flatten.mpr ⟨run, hrun, List.head_mem hne⟩
  exact (mem_dirtyPages.mp hmem).1

/-- A broken result is not what the screen needs. -/
theorem Redrawn.not_broken {spans : List RedrawSpan} (h : fb.Redrawn memory snapshot spans) :
    ¬fb.Broken (fb.takeRedrawSpans snapshot) := by
  rintro (herr | ⟨spans', hok, hlast⟩)
  · rw [h.taken] at herr
    cases herr
  · rw [h.taken] at hok
    cases hok
    exact absurd (h.rows _ (List.mem_of_getLast? hlast)).1 (Nat.lt_irrefl 0)

theorem takeRedrawSpans_runs (h : fb.Accepted) :
    ((∀ run ∈ runs fb.near (fb.dirtyPages snapshot), fb.Anchored run) →
      fb.takeRedrawSpans snapshot =
        .ok ((runs fb.near (fb.dirtyPages snapshot)).map fb.spanOf)) ∧
    (¬(∀ run ∈ runs fb.near (fb.dirtyPages snapshot), fb.Anchored run) →
      fb.Broken (fb.takeRedrawSpans snapshot)) := by
  unfold takeRedrawSpans
  rw [← addPages_filter]
  exact addPages_runs h _ sorted_dirtyPages inside_dirtyPages

/-- The spans of anchored runs. -/
theorem redrawn_runs (h : fb.Accepted)
    (hranges : SameRanges (fb.memory ramSize devices) memory) (hfit : fb.RunsFit ramSize snapshot) :
    fb.Redrawn memory snapshot ((runs fb.near (fb.dirtyPages snapshot)).map fb.spanOf) := by
  have hspan : ∀ run ∈ runs fb.near (fb.dirtyPages snapshot), ∃ first last,
      run.head? = some first ∧ run.getLast? = some last ∧ Dirty snapshot first ∧
        fb.Visible first ∧
        fb.spanOf run = ⟨fb.firstRow first, fb.endRow last - fb.firstRow first⟩ ∧
        fb.firstRow first < fb.endRow last := by
    intro run hrun
    obtain ⟨first, last, hfirst, hlast, hdirty, hsorted⟩ := run_ends hrun
    have hvisible := (hfit run hrun first hfirst last hlast).1
    exact ⟨first, last, hfirst, hlast, hdirty, hvisible,
      spanOf_end h hsorted hfirst hlast hvisible⟩
  have hrows : ∀ span ∈ (runs fb.near (fb.dirtyPages snapshot)).map fb.spanOf,
      0 < span.height ∧ span.y + span.height ≤ fb.height := by
    intro span hmem
    obtain ⟨run, hrun, rfl⟩ := List.mem_map.mp hmem
    obtain ⟨first, last, -, -, -, -, hequal, hlt⟩ := hspan run hrun
    have hend : fb.endRow last ≤ fb.height := endRow_le
    rw [hequal]
    constructor
    · show 0 < fb.endRow last - _
      omega
    · show fb.firstRow first + (fb.endRow last - fb.firstRow first) ≤ _
      omega
  constructor
  · apply (takeRedrawSpans_runs h).1
    intro run hrun first hfirst
    obtain ⟨_, last, -, hlast, -, -⟩ := run_ends hrun
    exact (hfit run hrun first hfirst last hlast).1
  · exact hrows
  · -- the order is transitive, and neighbours are more than three rows apart
    have htrans : Trans (fun span later : RedrawSpan => span.y + span.height ≤ later.y)
        (fun span later : RedrawSpan => span.y + span.height ≤ later.y)
        (fun span later : RedrawSpan => span.y + span.height ≤ later.y) :=
      ⟨fun hle hle' => by omega⟩
    apply List.isChain_iff_pairwise.mp
    rw [List.isChain_map]
    apply (Spans.apart fb.near (fb.dirtyPages snapshot)).imp_of_mem_imp
    intro run later hrun hlater hapart
    obtain ⟨first, last, hfirst, hlast, -, -, hequal, hlt⟩ := hspan run hrun
    obtain ⟨first', last', hfirst', hlast', -, -, hequal', -⟩ := hspan later hlater
    have hfar := hapart last hlast first' hfirst'
    unfold near at hfar
    rw [decide_eq_false_iff_not] at hfar
    rw [hequal, hequal']
    show fb.firstRow first + (fb.endRow last - fb.firstRow first) ≤ fb.firstRow first'
    omega
  · intro row page hrow hdirty hshares
    obtain ⟨hstart, hend⟩ := shares_rows h hrow hshares
    have hmem : page ∈ (runs fb.near (fb.dirtyPages snapshot)).flatten := by
      rw [Spans.runs_flatten, mem_dirtyPages]
      refine ⟨hdirty, ?_⟩
      have hvisible := (firstRow_lt_iff h).mp (Nat.lt_of_le_of_lt hstart hrow)
      unfold Visible at hvisible
      have hused := h.used_le
      omega
    obtain ⟨run, hrun, hpage⟩ := List.mem_flatten.mp hmem
    obtain ⟨first, last, hfirst, hlast, -, -, hequal, -⟩ := hspan run hrun
    obtain ⟨hbefore, hafter⟩ := Spans.sorted_bounds
      ((Spans.pairwise_runs sorted_dirtyPages).1 run hrun) hfirst hlast hpage
    have hfirstRow : fb.firstRow first ≤ fb.firstRow page := firstRow_mono hbefore
    have hendRow : fb.endRow page ≤ fb.endRow last := endRow_mono hafter
    refine ⟨_, List.mem_map_of_mem hrun, ?_⟩
    rw [hequal]
    constructor
    · show fb.firstRow first ≤ row
      omega
    · show row < fb.firstRow first + (fb.endRow last - fb.firstRow first)
      omega
  · intro span hmem
    obtain ⟨run, hrun, rfl⟩ := List.mem_map.mp hmem
    obtain ⟨first, last, -, -, hdirty, hvisible, hequal, -⟩ := hspan run hrun
    exact ⟨first, hdirty, hvisible, by rw [hequal]⟩
  · intro span hmem
    obtain ⟨hpos, hle⟩ := hrows span hmem
    rw [framebufferUpdate_iff h hranges hpos hle]
    obtain ⟨run, hrun, rfl⟩ := List.mem_map.mp hmem
    obtain ⟨first, last, hfirst, hlast, -, -, hequal, hlt⟩ := hspan run hrun
    have hsum : fb.firstRow first + (fb.endRow last - fb.firstRow first) = fb.endRow last := by
      omega
    rw [hequal]
    dsimp only
    rw [hsum]
    exact (hfit run hrun first hfirst last hlast).2

/-- What a snapshot can have changed is drawn again exactly if its runs of dirty pages fit. -/
theorem redrawn_iff {width height : Nat} (hnew : new width height = .ok fb)
    (hranges : SameRanges (fb.memory ramSize devices) memory) :
    (∃ spans, fb.Redrawn memory snapshot spans) ↔ fb.RunsFit ramSize snapshot := by
  have h := accepted_new hnew
  constructor
  · rintro ⟨spans, hredrawn⟩
    have hall : ∀ run ∈ runs fb.near (fb.dirtyPages snapshot), fb.Anchored run := by
      by_contra hbad
      exact hredrawn.not_broken ((takeRedrawSpans_runs h).2 hbad)
    intro run hrun first hfirst last hlast
    refine ⟨hall run hrun first hfirst, ?_⟩
    obtain ⟨-, -, -, -, -, hsorted⟩ := run_ends hrun
    obtain ⟨hequal, hlt⟩ := spanOf_end h hsorted hfirst hlast (hall run hrun first hfirst)
    have hmem : fb.spanOf run ∈ spans := by
      have htaken := hredrawn.taken
      rw [(takeRedrawSpans_runs h).1 hall] at htaken
      cases htaken
      exact List.mem_map_of_mem hrun
    obtain ⟨hpos, hle⟩ := hredrawn.rows _ hmem
    have hupdate := (framebufferUpdate_iff h hranges hpos hle).mp (hredrawn.updates _ hmem)
    have hsum : fb.firstRow first + (fb.endRow last - fb.firstRow first) = fb.endRow last := by
      omega
    rw [hequal] at hupdate
    dsimp only at hupdate
    rw [hsum] at hupdate
    exact hupdate
  · exact fun hfit => ⟨_, redrawn_runs h hranges hfit⟩

end Exact

/-- One pixel: the allocation has sixteen pages. -/
def pixel : Framebuffer := ⟨1, 1, 4, 0x10000⟩

/-- The page of the pixel is dirty. -/
theorem redrawn_iff_pixel :
    ∃ spans, pixel.Redrawn (pixel.memory 0x1000 []) [1] spans := by
  have hnew : new 1 1 = .ok pixel := rfl
  have hranges : SameRanges (pixel.memory 0x1000 []) (pixel.memory 0x1000 []) := rfl
  apply (redrawn_iff hnew hranges).mpr
  have hruns : runs pixel.near (pixel.dirtyPages [1]) = [[0]] := by decide
  intro run hrun first hfirst last hlast
  rw [hruns] at hrun
  cases List.mem_singleton.mp hrun
  cases hfirst
  cases hlast
  exact ⟨by decide, fun hmain => absurd hmain.1 (by decide)⟩

/-- A page of the padding is dirty: the difference of its rows overflows. -/
theorem redrawn_iff_padding :
    ¬∀ (width height ramSize : Nat) (fb : Framebuffer) (devices memory : GuestMemory)
        (snapshot : List (BitVec 32)), new width height = .ok fb → RamAccepted ramSize →
      SameRanges (fb.memory ramSize devices) memory → snapshot.length = fb.words →
      ∃ spans, fb.Redrawn memory snapshot spans := by
  intro h
  obtain ⟨spans, hspans⟩ := h 1 1 0x1000 pixel [] (pixel.memory 0x1000 []) [2] rfl
    ⟨by decide, by decide, by decide⟩ rfl rfl
  have htaken := hspans.taken
  have herr : pixel.takeRedrawSpans [2] = .err .overflow := rfl
  rw [herr] at htaken
  cases htaken

end Framebuffer
end Virtio
end Riscbox
