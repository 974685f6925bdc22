import BVault.Core.PdbTables

/-!
# What a build writes

The three passes of `build` followed through: tables are assembled one behind
the other, the chain ends are handed out and patched in, and the header is
written. What comes out is a file that realizes a plan, page for page.
-/

namespace BVault.Core

open Bytes Loops

namespace PdbBuilder

/-- The loop over the tables after some of them. -/
structure Assembled (b : PdbBuilder) (done : List PageType) (s : Assembly) (plan : Plan) :
    Prop where
  rows : plan.map List.flatten = done.map b.rows
  next : s.nextPageIndex = plan.pageCount
  nextSmall : s.nextPageIndex < 2 ^ 32
  sequence : s.sequence = plan.firstSequence plan.length
  sequenceSmall : s.sequence < 2 ^ 32
  length : s.allPages.length = plan.pageCount
  infos : s.tableInfos.length = plan.length
  info : ∀ (i : Nat) (pageType : PageType) (chunks : List (List Bytes)),
    done[i]? = some pageType → plan[i]? = some chunks →
      s.tableInfos[i]? = some ⟨pageType, plan.firstPage i, plan.firstPage i + chunks.length⟩
  tables : ∀ (i : Nat) (pageType : PageType) (chunks : List (List Bytes)),
    done[i]? = some pageType → plan[i]? = some chunks →
      TableAt (fun k => s.allPages[k]?) pageType (plan.firstPage i) (plan.firstSequence i)
        0xFFFFFFFF chunks

section
variable {b : PdbBuilder} {done : List PageType} {s s' : Assembly} {plan : Plan}

theorem Assembled.types (assembled : Assembled b done s plan) : plan.length = done.length := by
  have lengths := congrArg List.length assembled.rows
  rwa [List.length_map, List.length_map] at lengths

theorem assembled_start : Assembled b []
    { allPages := [zeroPage], nextPageIndex := 1, sequence := 2, tableInfos := [] } [] where
  rows := rfl
  next := rfl
  nextSmall := by decide
  sequence := rfl
  sequenceSmall := by decide
  length := rfl
  infos := rfl
  info := fun _ _ _ here => by cases here
  tables := fun _ _ _ here => by cases here

theorem assembleTable_spec {pageType : PageType} (assembled : Assembled b done s plan)
    (stepped : b.assembleTable s pageType = .ok s') :
    ∃ chunks, Assembled b (done ++ [pageType]) s' (plan ++ [chunks]) := by
  obtain ⟨⟨result, nextIdx⟩, built, stepped⟩ := of_bind stepped
  cases stepped
  obtain ⟨chunks, rows, laid⟩ := buildTableWithSequence_spec built assembled.sequenceSmall
  have types := assembled.types
  have first : s.nextPageIndex = plan.firstPage plan.length := by
    rw [assembled.next, Plan.firstPage_length]
  have before : s.allPages.length = s.nextPageIndex := by
    rw [assembled.length, assembled.next]
  refine ⟨chunks, ?_⟩
  constructor
  · rw [List.map_append, List.map_append, assembled.rows, List.map_singleton, List.map_singleton,
      rows]
  · rw [laid.next, assembled.next, Plan.pageCount_snoc]
  · exact laid.nextSmall
  · rw [laid.newSequence, assembled.sequence, Plan.firstSequence_snoc]
  · exact laid.sequenceSmall
  · rw [List.length_append, laid.count, assembled.length, Plan.pageCount_snoc]
  · rw [List.length_append, List.length_append, assembled.infos]
    rfl
  · intro i type others here there
    have infos := assembled.infos
    rcases getElem?_snoc_both types.symm here there with ⟨inside, here, there⟩ | ⟨same, rfl, rfl⟩
    · rw [List.getElem?_append_left (by omega), Plan.firstPage_append _ _ (by omega)]
      exact assembled.info i type others here there
    · rw [same, ← infos, List.getElem?_concat_length, infos,
        Plan.firstPage_append _ _ (le_refl _), ← first, laid.indexPageIdx, laid.lastDataPage]
  · intro i type others here there
    rcases getElem?_snoc_both types.symm here there with ⟨inside, here, there⟩ | ⟨same, rfl, rfl⟩
    · rw [Plan.firstPage_append _ _ (by omega), Plan.firstSequence_append _ _ (by omega)]
      refine (assembled.tables i type others here there).mono ?_
      intro k page _ found
      rw [List.getElem?_append_left (List.getElem?_eq_some_iff.mp found).1]
      exact found
    · rw [same, Plan.firstPage_append _ _ (le_refl _), Plan.firstSequence_append _ _ (le_refl _),
        ← first, ← assembled.sequence]
      exact laid.laid s.allPages before

end

/-- The loop over the table infos after `k` of them. -/
structure Pointed (types : List PageType) (plan : Plan) (k : Nat) (s : Pointers) : Prop where
  phantom : s.phantom = plan.pageCount + Plan.dataTables (plan.take k)
  small : s.phantom < 2 ^ 32
  pageSize : s.header.pageSize = PAGE_SIZE
  numTables : s.header.numTables = k
  length : s.header.tables.length = k
  pointer : ∀ (i : Nat) (pageType : PageType) (chunks : List (List Bytes)), i < k →
    types[i]? = some pageType → plan[i]? = some chunks →
      s.header.tables[i]? = some (TablePointer.new pageType (plan.candidate i chunks)
        (plan.firstPage i) (plan.firstPage i + chunks.length))
  targets : ∀ target, target ∈ s.patchTargets ↔ ∃ i < k, ∃ chunks, plan[i]? = some chunks ∧
    chunks ≠ [] ∧ target = (plan.firstPage i + chunks.length, plan.candidate i chunks)
  distinct : (s.patchTargets.map Prod.fst).Nodup

section
variable {types : List PageType} {plan : Plan} {k : Nat} {s s' : Pointers}

theorem pointed_start (types : List PageType) (small : plan.pageCount < 2 ^ 32) :
    Pointed types plan 0
      { header := FileHeader.new, phantom := plan.pageCount, patchTargets := [] } where
  phantom := rfl
  small := small
  pageSize := rfl
  numTables := rfl
  length := rfl
  pointer := fun _ _ _ inside => absurd inside (Nat.not_lt_zero _)
  targets := by
    intro target
    refine ⟨fun mem => absurd mem List.not_mem_nil, ?_⟩
    rintro ⟨i, inside, _⟩
    exact absurd inside (Nat.not_lt_zero i)
  distinct := List.nodup_nil

/-- A table's pointer joins the header. -/
theorem Pointed.addTable (pointed : Pointed types plan k s) {pageType : PageType}
    {chunks : List (List Bytes)} (here : types[k]? = some pageType)
    (there : plan[k]? = some chunks) {i : Nat} {type : PageType} {others : List (List Bytes)}
    (inside : i < k + 1) (here' : types[i]? = some type) (there' : plan[i]? = some others) :
    (s.header.addTable (TablePointer.new pageType (plan.candidate k chunks) (plan.firstPage k)
        (plan.firstPage k + chunks.length))).tables[i]? =
      some (TablePointer.new type (plan.candidate i others) (plan.firstPage i)
        (plan.firstPage i + others.length)) := by
  have length := pointed.length
  rw [FileHeader.addTable]
  rcases Nat.lt_or_ge i k with before | last
  · rw [List.getElem?_append_left (by omega)]
    exact pointed.pointer i type others before here' there'
  · obtain rfl : i = k := by omega
    rw [here] at here'
    rw [there] at there'
    cases here'
    cases there'
    rw [← length, List.getElem?_concat_length, length]

/-- The chain end of the next table joins those before, if the table has pages. -/
theorem Pointed.targets_succ (pointed : Pointed types plan k s) {chunks : List (List Bytes)}
    (there : plan[k]? = some chunks) (target : Nat × Nat) :
    (∃ i < k + 1, ∃ others, plan[i]? = some others ∧ others ≠ [] ∧
      target = (plan.firstPage i + others.length, plan.candidate i others)) ↔
        target ∈ s.patchTargets ∨ chunks ≠ [] ∧
          target = (plan.firstPage k + chunks.length, plan.candidate k chunks) := by
  rw [pointed.targets, Nat.exists_lt_succ_right]
  simp only [there, Option.some.injEq, exists_eq_left']

/-- The end of the next table is none of the ends before. -/
theorem Pointed.fresh (pointed : Pointed types plan k s) {chunks : List (List Bytes)}
    (nonempty : chunks ≠ []) :
    plan.firstPage k + chunks.length ∉ s.patchTargets.map Prod.fst := by
  intro old
  have positive : 0 < chunks.length := List.length_pos_iff.mpr nonempty
  obtain ⟨target, mem, same⟩ := List.mem_map.mp old
  obtain ⟨i, before, others, there, -, rfl⟩ := (pointed.targets target).mp mem
  have apart := Plan.firstPage_apart there before
  rw [Plan.width] at apart
  omega

theorem pointTable_data (pointed : Pointed types plan k s) {pageType : PageType}
    {chunks : List (List Bytes)} (here : types[k]? = some pageType)
    (there : plan[k]? = some chunks) (nonempty : chunks ≠ [])
    (stepped : pointTable s ⟨pageType, plan.firstPage k, plan.firstPage k + chunks.length⟩ =
      .ok s') : Pointed types plan (k + 1) s' := by
  have positive : 0 < chunks.length := List.length_pos_iff.mpr nonempty
  have data : chunks.isEmpty = false := by simpa using nonempty
  have phantom : plan.candidate k chunks = s.phantom := by
    rw [Plan.candidate_data data, pointed.phantom]
  rw [pointTable, if_pos (by simp only; omega)] at stepped
  obtain ⟨next, added, stepped⟩ := of_bind stepped
  obtain ⟨rfl, small⟩ := addU32_spec added
  cases stepped
  rw [← phantom]
  constructor
  · simp only
    rw [phantom, pointed.phantom, Plan.take_succ_of_getElem? there, Plan.dataTables,
      Plan.dataTables, List.countP_append, List.countP_singleton, data]
    rfl
  · simp only
    rw [phantom]
    exact small
  · exact pointed.pageSize
  · exact congrArg (· + 1) pointed.length
  · simp only [FileHeader.addTable, List.length_append, List.length_singleton]
    rw [pointed.length]
  · intro i type others inside here' there'
    exact pointed.addTable here there inside here' there'
  · intro target
    rw [pointed.targets_succ there, List.mem_append, List.mem_singleton, and_iff_right nonempty]
  · rw [List.map_append, List.map_singleton, ← List.concat_eq_append]
    exact pointed.distinct.concat (pointed.fresh nonempty)

theorem pointTable_empty (pointed : Pointed types plan k s) {pageType : PageType}
    (here : types[k]? = some pageType) (there : plan[k]? = some [])
    (stepped : pointTable s ⟨pageType, plan.firstPage k, plan.firstPage k⟩ = .ok s') :
    Pointed types plan (k + 1) s' := by
  have reserved := (Plan.candidate_empty there rfl).1
  rw [pointTable, if_neg (Nat.lt_irrefl _)] at stepped
  obtain ⟨next, added, stepped⟩ := of_bind stepped
  obtain ⟨rfl, _⟩ := addU32_spec added
  cases stepped
  rw [← reserved]
  constructor
  · simp only
    rw [pointed.phantom, Plan.take_succ_of_getElem? there, Plan.dataTables, Plan.dataTables,
      List.countP_append]
    rfl
  · exact pointed.small
  · exact pointed.pageSize
  · exact congrArg (· + 1) pointed.length
  · simp only [FileHeader.addTable, List.length_append, List.length_singleton]
    rw [pointed.length]
  · intro i type others inside here' there'
    exact pointed.addTable here there inside here' there'
  · intro target
    rw [pointed.targets_succ there]
    simp only [ne_eq, not_true_eq_false, false_and, or_false]
  · exact pointed.distinct

end

/-- The patched pages, and no others, get their new next page. -/
theorem patchTargets_spec {targets : List (Nat × Nat)} {pages pages' : List Bytes}
    (distinct : (targets.map Prod.fst).Nodup)
    (ran : targets.foldlM patchTarget pages = .ok pages') :
    pages'.length = pages.length ∧
      (∀ k, k ∉ targets.map Prod.fst → pages'[k]? = pages[k]?) ∧
      ∀ k candidate page, (k, candidate) ∈ targets → pages[k]? = some page →
        pages'[k]? = some (patch page 0x0C (leBytes 4 candidate)) := by
  induction targets generalizing pages with
  | nil =>
    cases ran
    exact ⟨rfl, fun _ _ => rfl, fun _ _ _ mem => by cases mem⟩
  | cons target targets ih =>
    obtain ⟨last, end_⟩ := target
    obtain ⟨fresh, distinct⟩ := List.nodup_cons.mp distinct
    rw [List.foldlM_cons] at ran
    obtain ⟨next, stepped, ran⟩ := of_bind ran
    obtain ⟨length, elsewhere, patched⟩ := ih distinct ran
    rw [patchTarget] at stepped
    split at stepped
    · rename_i old found
      cases stepped
      refine ⟨by rw [length, List.length_set], ?_, ?_⟩
      · intro k outside
        rw [List.map_cons, List.mem_cons, not_or] at outside
        rw [elsewhere k outside.2, List.getElem?_set_ne (Ne.symm outside.1)]
      · intro k candidate page mem there
        rcases List.mem_cons.mp mem with same | mem
        · cases same
          simp only at found fresh
          rw [found] at there
          cases there
          rw [elsewhere last fresh]
          exact List.getElem?_set_self (List.getElem?_eq_some_iff.mp found).1
        · refine patched k candidate page mem ?_
          have other : last ≠ k := by
            rintro rfl
            exact fresh (List.mem_map.mpr ⟨_, mem, rfl⟩)
          rw [List.getElem?_set_ne other]
          exact there
    · cases stepped

end PdbBuilder

/-- A table with its chain end patched in, its other pages as they were. -/
theorem TableAt.patched {get get' : Nat → Option Bytes} {pageType : PageType}
    {first sequence last candidate : Nat} {chunks : List (List Bytes)}
    (table : TableAt get pageType first sequence last chunks) (fits : candidate < 2 ^ 32)
    (same : ∀ m < Plan.width chunks, chunks = [] ∨ m ≠ chunks.length →
      get' (first + m) = get (first + m))
    (ends : ∀ page, chunks ≠ [] → get (first + chunks.length) = some page →
      get' (first + chunks.length) = some (patch page 0x0C (leBytes 4 candidate))) :
    TableAt get' pageType first sequence candidate chunks := by
  constructor
  · obtain ⟨page, there, index⟩ := table.index
    have kept : get' (first + 0) = get (first + 0) := by
      refine same 0 (by rw [Plan.width]; omega) ?_
      cases chunks with
      | nil => exact Or.inl rfl
      | cons rows chunks => exact Or.inr (by simp)
    exact ⟨page, kept.trans there, index⟩
  · intro none_
    rw [same 1 (by rw [Plan.width]; omega) (Or.inl none_)]
    exact table.empty none_
  · intro j rows here
    obtain ⟨page, there, data, number⟩ := table.data j rows here
    have inside := (List.getElem?_eq_some_iff.mp here).1
    by_cases more : j + 1 < chunks.length
    · refine ⟨page, ?_, ?_, number⟩
      · rw [Nat.add_assoc, same (1 + j) (by rw [Plan.width]; omega) (Or.inr (by omega)),
          ← Nat.add_assoc]
        exact there
      · rw [if_pos more] at data ⊢
        exact data
    · have last : first + 1 + j = first + chunks.length := by omega
      have nonempty : chunks ≠ [] := by
        rintro rfl
        cases here
      refine ⟨patch page 0x0C (leBytes 4 candidate), ?_, ?_, ?_⟩
      · rw [last] at there ⊢
        exact ends page nonempty there
      · rw [if_neg more]
        exact data.setNext fits
      · rw [readLE, data.read_patch (Or.inl rfl) (by omega)]
        exact number

/-- The pages of a table are pages, and name themselves where they are not zero. -/
theorem TableAt.page {get : Nat → Option Bytes} {pageType : PageType}
    {first sequence last k : Nat} {chunks : List (List Bytes)}
    (table : TableAt get pageType first sequence last chunks) (low : first ≤ k)
    (high : k < first + Plan.width chunks) :
    ∃ page, get k = some page ∧ page.length = PAGE_SIZE ∧
      (page = zeroPage ∨ readLE page 0x04 4 = k) := by
  rw [Plan.width] at high
  rcases Nat.eq_or_lt_of_le low with rfl | behind
  · obtain ⟨page, there, index⟩ := table.index
    exact ⟨page, there, index.size, Or.inr index.own⟩
  · rcases Nat.lt_or_ge (k - (first + 1)) chunks.length with inside | outside
    · obtain ⟨page, there, data, _⟩ := table.data _ _ (List.getElem?_eq_getElem inside)
      rw [Nat.add_sub_cancel' behind] at there data
      exact ⟨page, there, data.size, Or.inr data.index⟩
    · have none_ : chunks = [] := List.eq_nil_of_length_eq_zero (by omega)
      have reserved : k = first + 1 := by omega
      rw [reserved]
      exact ⟨zeroPage, table.empty none_, length_zeroPage, Or.inl rfl⟩

namespace FileHeader

variable {h : FileHeader} (few : h.tables.length ≤ 20)
include few

theorem within_writes : Within zeroPage.length h.writes := by
  intro q mem
  rw [length_zeroPage, PAGE_SIZE]
  rcases List.mem_append.mp mem with field | pointer
  · simp only [List.mem_cons, List.not_mem_nil, or_false] at field
    rcases field with rfl | rfl | rfl | rfl | rfl <;> simp
  · obtain ⟨i, inside, rfl⟩ := List.mem_mapIdx.mp pointer
    simp only [TablePointer.toBytes, List.length_append, length_leBytes]
    omega

theorem length_toPage : h.toPage.length = PAGE_SIZE := by
  rw [toPage, length_patchAll (within_writes few), length_zeroPage]

/-- Every field of the header and every table pointer is read back. -/
theorem read_write {off : Nat} {bs : Bytes} (mem : (off, bs) ∈ h.writes) :
    slice h.toPage off bs.length = bs := by
  refine slice_patchAll_of_mem (within_writes few) mem ?_
  intro q other
  rcases List.mem_append.mp mem with field | pointer
  · rcases List.mem_append.mp other with field' | pointer'
    · simp only [List.mem_cons, List.not_mem_nil, or_false, Prod.mk.injEq] at field field'
      rcases field with ⟨rfl, rfl⟩ | ⟨rfl, rfl⟩ | ⟨rfl, rfl⟩ | ⟨rfl, rfl⟩ | ⟨rfl, rfl⟩ <;>
        rcases field' with rfl | rfl | rfl | rfl | rfl <;> simp
    · obtain ⟨i, inside, rfl⟩ := List.mem_mapIdx.mp pointer'
      simp only [List.mem_cons, List.not_mem_nil, or_false, Prod.mk.injEq] at field
      left
      rcases field with ⟨rfl, rfl⟩ | ⟨rfl, rfl⟩ | ⟨rfl, rfl⟩ | ⟨rfl, rfl⟩ | ⟨rfl, rfl⟩ <;>
        rw [length_leBytes] <;> omega
  · obtain ⟨i, inside, same⟩ := List.mem_mapIdx.mp pointer
    cases same
    rcases List.mem_append.mp other with field' | pointer'
    · simp only [List.mem_cons, List.not_mem_nil, or_false] at field'
      right
      left
      rcases field' with rfl | rfl | rfl | rfl | rfl <;> rw [length_leBytes] <;> omega
    · obtain ⟨j, inside', rfl⟩ := List.mem_mapIdx.mp pointer'
      simp only [TablePointer.toBytes, List.length_append, length_leBytes]
      rcases Nat.lt_trichotomy i j with before | same | after
      · left
        omega
      · subst same
        exact Or.inr (Or.inr rfl)
      · right
        left
        omega

end FileHeader

/-- A page of a file. -/
def page (file : Bytes) (k : Nat) : Bytes := slice file (k * PAGE_SIZE) PAGE_SIZE

/-- A file laid out as planned: the header first, then table behind table. -/
structure Realizes (b : PdbBuilder) (plan : Plan) (header : FileHeader) (file : Bytes) :
    Prop where
  rows : plan.map List.flatten = PageType.allTypes.map b.rows
  size : file.length = plan.pageCount * PAGE_SIZE
  small : plan.pageCount + Plan.dataTables plan < 2 ^ 32
  sequenceSmall : plan.firstSequence plan.length < 2 ^ 32
  headerPage : page file 0 = header.toPage
  pageSize : header.pageSize = PAGE_SIZE
  numTables : header.numTables = 20
  nextUnused : header.nextUnusedPage = plan.pageCount + Plan.dataTables plan
  sequence : header.sequence = plan.firstSequence plan.length
  length : header.tables.length = 20
  pointer : ∀ (i : Nat) (pageType : PageType) (chunks : List (List Bytes)),
    PageType.allTypes[i]? = some pageType → plan[i]? = some chunks →
      header.tables[i]? = some (TablePointer.new pageType (plan.candidate i chunks)
        (plan.firstPage i) (plan.firstPage i + chunks.length))
  tables : ∀ (i : Nat) (pageType : PageType) (chunks : List (List Bytes)),
    PageType.allTypes[i]? = some pageType → plan[i]? = some chunks →
      TableAt (fun k => some (page file k)) pageType (plan.firstPage i) (plan.firstSequence i)
        (plan.candidate i chunks) chunks

namespace PdbBuilder

section
variable {types : List PageType} {plan : Plan}

/-- The infos are those of the tables. -/
theorem Assembled.infoAt {b : PdbBuilder} {s : Assembly} {k : Nat} {info : TableInfo}
    (assembled : Assembled b types s plan) (found : s.tableInfos[k]? = some info) :
    ∃ pageType chunks, types[k]? = some pageType ∧ plan[k]? = some chunks ∧
      info = ⟨pageType, plan.firstPage k, plan.firstPage k + chunks.length⟩ := by
  have inside : k < plan.length := by
    rw [← assembled.infos]
    exact (List.getElem?_eq_some_iff.mp found).1
  have inside' : k < types.length := by
    rw [← assembled.types]
    exact inside
  have there := List.getElem?_eq_getElem inside
  have here := List.getElem?_eq_getElem inside'
  have known := assembled.info k _ _ here there
  rw [found] at known
  exact ⟨_, _, here, there, Option.some.inj known⟩

theorem pointTable_spec {k : Nat} {s s' : Pointers} {pageType : PageType}
    {chunks : List (List Bytes)} (pointed : Pointed types plan k s)
    (here : types[k]? = some pageType) (there : plan[k]? = some chunks)
    (stepped : pointTable s ⟨pageType, plan.firstPage k, plan.firstPage k + chunks.length⟩ =
      .ok s') : Pointed types plan (k + 1) s' := by
  by_cases none_ : chunks = []
  · subst none_
    exact pointTable_empty pointed here there stepped
  · exact pointTable_data pointed here there none_ stepped

/-- Every table found so far gets its chain end. -/
theorem pointTables_spec {s : Assembly} {pointers : Pointers} {b : PdbBuilder}
    (assembled : Assembled b types s plan)
    (ran : s.tableInfos.foldlM pointTable
      { header := FileHeader.new, phantom := s.nextPageIndex, patchTargets := [] } = .ok pointers) :
    Pointed types plan plan.length pointers := by
  have small := assembled.nextSmall
  rw [assembled.next] at small ran
  rw [← assembled.infos]
  refine foldlM_invariant (P := fun done pointers => Pointed types plan done.length pointers)
    (pointed_start types small) ?_ ran
  intro done info s₁ s₂ pointed consumed stepped
  obtain ⟨pageType, chunks, here, there, rfl⟩ := assembled.infoAt (getElem?_of_consumed consumed)
  rw [List.length_append, List.length_singleton]
  exact pointTable_spec pointed here there stepped

/-- Only last data pages are patched. -/
theorem not_target {k : Nat} {pointers : Pointers} (pointed : Pointed types plan k pointers)
    {i m : Nat} {chunks : List (List Bytes)} (there : plan[i]? = some chunks)
    (inside : m < Plan.width chunks) (other : chunks = [] ∨ m ≠ chunks.length) :
    plan.firstPage i + m ∉ pointers.patchTargets.map Prod.fst := by
  intro mem
  obtain ⟨target, mem, same⟩ := List.mem_map.mp mem
  obtain ⟨j, _, others, there', nonempty, rfl⟩ := (pointed.targets target).mp mem
  simp only at same
  have positive : 0 < others.length := List.length_pos_iff.mpr nonempty
  rcases Nat.lt_trichotomy i j with before | equal | after
  · have apart := Plan.firstPage_apart there before
    omega
  · subst equal
    rw [there] at there'
    cases there'
    rcases other with none_ | differs
    · exact nonempty none_
    · omega
  · have apart := Plan.firstPage_apart there' after
    rw [Plan.width] at apart
    omega

end

/-- Where each table of a plan is found, its chain closed with its own end. -/
def TablesLaid (plan : Plan) (get : Nat → Option Bytes) : Prop :=
  ∀ (i : Nat) (pageType : PageType) (chunks : List (List Bytes)),
    PageType.allTypes[i]? = some pageType → plan[i]? = some chunks →
      TableAt get pageType (plan.firstPage i) (plan.firstSequence i) (plan.candidate i chunks)
        chunks

/-- The patches close every chain, and leave the other pages of a table alone. -/
theorem tablesLaid_of_patched {b : PdbBuilder} {s : Assembly} {plan : Plan} {pointers : Pointers}
    {allPages : List Bytes} (assembled : Assembled b PageType.allTypes s plan)
    (pointed : Pointed PageType.allTypes plan plan.length pointers)
    (patching : pointers.patchTargets.foldlM patchTarget s.allPages = .ok allPages) :
    allPages.length = s.allPages.length ∧ TablesLaid plan (fun k => allPages[k]?) := by
  obtain ⟨length, elsewhere, patched⟩ := patchTargets_spec pointed.distinct patching
  have small := pointed.small
  rw [pointed.phantom, List.take_length] at small
  refine ⟨length, ?_⟩
  intro i pageType chunks here there
  have below := Plan.candidate_below there
  refine (assembled.tables i pageType chunks here there).patched (by omega) ?_ ?_
  · intro m inside other
    exact elsewhere _ (not_target pointed there inside other)
  · intro last nonempty found
    refine patched _ _ last ?_ found
    exact (pointed.targets _).mpr ⟨i, (List.getElem?_eq_some_iff.mp there).1, chunks, there,
      nonempty, rfl⟩

/-- All pages of the file are pages. -/
theorem pages_size {plan : Plan} {allPages : List Bytes} {headerPage : Bytes}
    (types : plan.length = PageType.allTypes.length) (length : allPages.length = plan.pageCount)
    (tables : TablesLaid plan (fun k => allPages[k]?)) (size : headerPage.length = PAGE_SIZE) :
    ∀ p ∈ allPages.set 0 headerPage, p.length = PAGE_SIZE := by
  intro p mem
  obtain ⟨k, inside, rfl⟩ := List.mem_iff_getElem.mp mem
  rw [List.length_set, length] at inside
  cases k with
  | zero => rwa [List.getElem_set_self]
  | succ k =>
    rw [List.getElem_set_ne (by omega)]
    obtain ⟨i, chunks, there, low, high⟩ := plan.exists_table (Nat.succ_pos k) inside
    have known : i < PageType.allTypes.length := by
      rw [← types]
      exact (List.getElem?_eq_some_iff.mp there).1
    obtain ⟨q, found, qSize, _⟩ :=
      (tables i _ chunks (List.getElem?_eq_getElem known) there).page low high
    rw [List.getElem?_eq_getElem (by omega)] at found
    rw [Option.some.inj found]
    exact qSize

/-- The tables one after the other make up a plan. -/
theorem assembleTables_spec {b : PdbBuilder} {s : Assembly}
    (ran : PageType.allTypes.foldlM b.assembleTable
      { nextPageIndex := 1, allPages := [zeroPage], tableInfos := [], sequence := 2 } = .ok s) :
    ∃ plan, Assembled b PageType.allTypes s plan := by
  refine foldlM_invariant (P := fun done s => ∃ plan, Assembled b done s plan)
    ⟨[], assembled_start⟩ ?_ ran
  rintro done pageType s s' ⟨plan, assembled⟩ _ stepped
  obtain ⟨chunks, after⟩ := assembleTable_spec assembled stepped
  exact ⟨plan ++ [chunks], after⟩

/-- A successful build realizes a plan for the rows of the tables. -/
theorem build_realizes {b : PdbBuilder} {file : Bytes} (built : b.build = .ok file) :
    ∃ plan header, Realizes b plan header file := by
  rw [build] at built
  obtain ⟨s, assembly, built⟩ := of_bind built
  obtain ⟨pointers, pointing, built⟩ := of_bind built
  obtain ⟨allPages, patching, built⟩ := of_bind built
  obtain ⟨plan, assembled⟩ := assembleTables_spec assembly
  have pointed := pointTables_spec assembled pointing
  obtain ⟨length, tables⟩ := tablesLaid_of_patched assembled pointed patching
  have types : plan.length = 20 := assembled.types
  have phantom := pointed.phantom
  rw [List.take_length] at phantom
  have small := pointed.small
  rw [phantom] at small
  obtain ⟨header, made⟩ : ∃ header : FileHeader, header =
      { pointers.header with
        nextUnusedPage := pointers.phantom
        sequence := s.sequence
        trackCount := b.tracks.length % 2 ^ 32 } := ⟨_, rfl⟩
  rw [← made] at built
  obtain rfl := Except.ok.inj built
  have count : header.tables.length = 20 := by
    rw [made, ← types]
    exact pointed.length
  have pageCount : allPages.length = plan.pageCount := length.trans assembled.length
  have positive : 0 < allPages.length := by
    rw [pageCount, Plan.pageCount]
    omega
  have sizes := pages_size assembled.types pageCount tables
    (FileHeader.length_toPage (le_of_eq count))
  refine ⟨plan, header, ?_⟩
  constructor
  · exact assembled.rows
  · rw [length_pages sizes, List.length_set, pageCount]
  · exact small
  · rw [← assembled.sequence]
    exact assembled.sequenceSmall
  · refine slice_pages sizes ?_
    exact List.getElem?_set_self positive
  · rw [made]
    exact pointed.pageSize
  · rw [made, ← types]
    exact pointed.numTables
  · rw [made, ← phantom]
  · rw [made, ← assembled.sequence]
  · exact count
  · intro i pageType chunks here there
    rw [made]
    exact pointed.pointer i pageType chunks (List.getElem?_eq_some_iff.mp there).1 here there
  · intro i pageType chunks here there
    have placed := Plan.firstPage_mono plan (Nat.zero_le i)
    rw [Plan.firstPage_zero] at placed
    refine (tables i pageType chunks here there).mono ?_
    intro k p behind found
    refine congrArg some (slice_pages sizes ?_)
    rw [List.getElem?_set_ne (by omega)]
    exact found

end PdbBuilder

end BVault.Core
