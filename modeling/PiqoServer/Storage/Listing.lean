import Mathlib.Data.Set.Finite.List
import Mathlib.Data.Prod.Lex
import PiqoServer.Library.Paging
import PiqoServer.Storage.Database

/-!
# Listing sessions and projects

The listings of `SqliteStore` in `piqo-server/src/storage.rs`: each answers a page and a cursor,
which is the time and the id of the page's last row. SQLite compares texts by their characters, and
pairs of texts lexicographically.

## Main definitions

* `encodeCursor`, `decodeCursor`: cursors
* `listSessions`, `listSessionsByClause`, `listProjects`: a page of a listing
* `ListedHistory`: the tables from one request to the next
* `follow`: following the cursors from the first page
* `ReadsExactly`: what following them reads

## Main results

* `decodeCursor_encodeCursor`: the codec
* `follow_eq`: following the cursors is a walk by keys
* `listings_read_exactly`: the listings are read completely, in order, and once
-/

namespace Piqo

/-! ## Cursors -/

/-- `str::split_once`: the text before and the text after the first occurrence. -/
def splitOnce (separator : Char) (s : String) : Option (String × String) :=
  match s.toList.dropWhile (· != separator) with
  | [] => none
  | _ :: rest => some (String.ofList (s.toList.takeWhile (· != separator)), String.ofList rest)

def encodeCursor (createdAt id : String) : String := createdAt ++ "|" ++ id

def decodeCursor (cursor : String) : Except StoreError (String × String) :=
  match splitOnce '|' cursor with
  | none => .error .invalidCursor
  | some (createdAt, id) =>
    if createdAt.isEmpty || id.isEmpty then .error .invalidCursor else .ok (createdAt, id)

theorem decodeCursor_encodeCursor {createdAt id : String} (hcreated : createdAt ≠ "")
    (hbar : '|' ∉ createdAt.toList) (hid : id ≠ "") :
    decodeCursor (encodeCursor createdAt id) = .ok (createdAt, id) := by
  have hall : ∀ c ∈ createdAt.toList, (c != '|') = true := by
    intro c hc
    rw [bne_iff_ne]
    rintro rfl
    exact hbar hc
  have hlist : (encodeCursor createdAt id).toList = createdAt.toList ++ '|' :: id.toList := by
    simp [encodeCursor, String.toList_append]
  have hsplit : splitOnce '|' (encodeCursor createdAt id) = some (createdAt, id) := by
    rw [splitOnce, hlist, List.dropWhile_append_of_pos hall, List.takeWhile_append_of_pos hall]
    simp
  rw [decodeCursor, hsplit]
  simp [hcreated, hid]

/-! ## Pages -/

/-- A row of `projects` with its times. -/
structure ProjectRow extends Project where
  createdAt : String
  updatedAt : String
  deriving DecidableEq

/-- `(a.0, a.1) < (b.0, b.1)` of SQLite. -/
def rowBelow (a b : String × String) : Bool := a.1 < b.1 || (a.1 = b.1 && a.2 < b.2)

/-- `SELECT .. WHERE .. ORDER BY created_at DESC, id DESC LIMIT ..`. -/
def selectRows {R : Type} (rowKey : R → String × String) (condition : R → Bool) (limit : Nat)
    (rows : List R) : List R :=
  ((rows.filter condition).mergeSort fun a b =>
    rowKey b = rowKey a || rowBelow (rowKey b) (rowKey a)).take limit

/-- `limit.clamp(1, 200)`. -/
def clampLimit (limit : Nat) : Nat := max 1 (min limit 200)

/-- `rows.last().expect(..)`. -/
def expectLast {R : Type} (rows : List R) : Except StoreError R :=
  match rows.getLast? with
  | some last => .ok last
  | none => .error .panicked

def SessionSummary.rowKey (row : SessionSummary) : String × String := (row.createdAt, row.id)

def ProjectRow.rowKey (row : ProjectRow) : String × String := (row.createdAt, row.id)

def listSessions (sessions : List SessionSummary) (cursor : Option String) (limit : Nat) :
    Except StoreError (List SessionSummary × Option String) := do
  let limit := clampLimit limit
  let rows ← match cursor with
    | some cursor => do
      let key ← decodeCursor cursor
      pure (selectRows SessionSummary.rowKey (fun row => rowBelow row.rowKey key) (limit + 1)
        sessions)
    | none => pure (selectRows SessionSummary.rowKey (fun _ => true) (limit + 1) sessions)
  let hasMore := limit < rows.length
  let summaries := rows.take limit
  let next :=
    if hasMore then summaries.getLast?.map fun last => encodeCursor last.createdAt last.id
    else none
  pure (summaries, next)

/-- The clause of a listing by project. -/
def listSessionsByClause (clause : SessionSummary → Bool) (sessions : List SessionSummary)
    (cursor : Option String) (limit : Nat) :
    Except StoreError (List SessionSummary × Option String) := do
  let limit := clampLimit limit
  let rows ← match cursor with
    | some cursor => do
      let key ← decodeCursor cursor
      pure (selectRows SessionSummary.rowKey (fun row => clause row && rowBelow row.rowKey key)
        (limit + 1) sessions)
    | none => pure (selectRows SessionSummary.rowKey clause (limit + 1) sessions)
  let hasMore := limit < rows.length
  let summaries := rows.take limit
  if hasMore then do
    let last ← expectLast summaries
    pure (summaries, some (encodeCursor last.createdAt last.id))
  else pure (summaries, none)

def listUnassignedSessions (sessions : List SessionSummary) (cursor : Option String)
    (limit : Nat) : Except StoreError (List SessionSummary × Option String) :=
  listSessionsByClause (·.projectId.isNone) sessions cursor limit

def listProjectSessions (projects : List ProjectRow) (projectId : String)
    (sessions : List SessionSummary) (cursor : Option String) (limit : Nat) :
    Except StoreError (List SessionSummary × Option String) :=
  if projects.any (·.id = projectId) then
    listSessionsByClause (·.projectId = some projectId) sessions cursor limit
  else .error (.projectNotFound projectId)

def listProjects (projects : List ProjectRow) (cursor : Option String) (limit : Nat) :
    Except StoreError (List ProjectRow × Option String) := do
  let limit := clampLimit limit
  let rows ← match cursor with
    | some cursor => do
      let key ← decodeCursor cursor
      pure (selectRows ProjectRow.rowKey (fun row => rowBelow row.rowKey key) (limit + 1) projects)
    | none => pure (selectRows ProjectRow.rowKey (fun _ => true) (limit + 1) projects)
  let hasMore := limit < rows.length
  let found := rows.take limit
  if hasMore then do
    let last ← expectLast found
    pure (found, some (encodeCursor last.createdAt last.id))
  else pure (found, none)

/-! ## Pages by keys -/

section Key

variable {R : Type} (rowKey : R → String × String)

/-- The key of a row in the order of SQLite. -/
def orderKey (row : R) : String ×ₗ String := toLex (rowKey row)

theorem rowBelow_iff (a b : String × String) : rowBelow a b = true ↔ toLex a < toLex b := by
  simp [rowBelow, Prod.Lex.toLex_lt_toLex]

theorem selectRows_eq (condition : R → Bool) (limit : Nat) (rows : List R) :
    selectRows rowKey condition limit rows =
      Paging.fetch (orderKey rowKey) none limit (rows.filter condition) := by
  have horder : (fun a b => decide (rowKey b = rowKey a) || rowBelow (rowKey b) (rowKey a)) =
      fun a b => decide (orderKey rowKey b ≤ orderKey rowKey a) := by
    funext a b
    rw [Bool.eq_iff_iff, Bool.or_eq_true, decide_eq_true_iff, decide_eq_true_iff, rowBelow_iff,
      le_iff_eq_or_lt]
    exact Iff.rfl
  rw [selectRows, Paging.fetch, horder]
  simp

theorem fetch_below (clause : R → Bool) (k : String ×ₗ String) (limit : Nat) (rows : List R) :
    Paging.fetch (orderKey rowKey) none limit
        (rows.filter fun row => clause row && rowBelow (rowKey row) (ofLex k)) =
      Paging.fetch (orderKey rowKey) (some k) limit (rows.filter clause) := by
  have hbelow : ∀ row, rowBelow (rowKey row) (ofLex k) = decide (orderKey rowKey row < k) := by
    intro row
    rw [Bool.eq_iff_iff, rowBelow_iff, decide_eq_true_iff]
    exact Iff.rfl
  simp [Paging.fetch, List.filter_filter, hbelow, Bool.and_comm]

/-- The cursor of a key. -/
def keyCursor (k : String ×ₗ String) : String := encodeCursor (ofLex k).1 (ofLex k).2

/-- Where there is a next page, this one has a last row. -/
theorem answer_eq {limit : Nat} (hlimit : 0 < limit) (found : List R) :
    (if limit < found.length then do
        let last ← expectLast (found.take limit)
        pure (found.take limit, some (encodeCursor (rowKey last).1 (rowKey last).2))
      else pure (found.take limit, none) : Except StoreError (List R × Option String)) =
      .ok (found.take limit, (if limit < found.length then
        (found.take limit).getLast?.map (orderKey rowKey) else none).map keyCursor) := by
  split
  · next hmore =>
    have hne : found.take limit ≠ [] := by
      rw [Ne, List.take_eq_nil_iff, not_or]
      exact ⟨by omega, fun h => by simp [h] at hmore⟩
    rw [expectLast, List.getLast?_eq_some_getLast hne]
    rfl
  · rfl

theorem next_eq (limit : Nat) (found : List R) :
    (if limit < found.length then (found.take limit).getLast?.map fun last =>
        encodeCursor (rowKey last).1 (rowKey last).2 else none) =
      (if limit < found.length then
        (found.take limit).getLast?.map (orderKey rowKey) else none).map keyCursor := by
  split
  · rw [Option.map_map]
    rfl
  · rfl

end Key

theorem clampLimit_pos (limit : Nat) : 0 < clampLimit limit := by
  rw [clampLimit]
  omega

/-- A listing answers the pages of the rows it shows. -/
def Lists {R : Type} (list : Option String → Nat → Except StoreError (List R × Option String))
    (rowKey : R → String × String) (shown : List R) : Prop :=
  ∀ (bound : Option (String ×ₗ String)) (limit : Nat),
    (∀ k ∈ bound, decodeCursor (keyCursor k) = .ok (ofLex k)) →
    list (bound.map keyCursor) limit =
      .ok ((Paging.page (orderKey rowKey) bound (clampLimit limit) shown).1,
        (Paging.page (orderKey rowKey) bound (clampLimit limit) shown).2.map keyCursor)

theorem listSessionsByClause_lists (clause : SessionSummary → Bool)
    (sessions : List SessionSummary) :
    Lists (listSessionsByClause clause sessions) SessionSummary.rowKey (sessions.filter clause) := by
  intro bound limit hbound
  cases bound with
  | none =>
    rw [Paging.page, ← selectRows_eq]
    exact answer_eq SessionSummary.rowKey (clampLimit_pos limit) _
  | some k =>
    rw [Paging.page, ← fetch_below, ← selectRows_eq]
    simp only [listSessionsByClause, Option.map_some, hbound k rfl]
    exact answer_eq SessionSummary.rowKey (clampLimit_pos limit) _

theorem filter_all {R : Type} (rows : List R) : (rows.filter fun _ => true) = rows := by simp

theorem listProjects_lists (projects : List ProjectRow) :
    Lists (listProjects projects) ProjectRow.rowKey projects := by
  intro bound limit hbound
  rw [← filter_all projects]
  cases bound with
  | none =>
    rw [Paging.page, ← selectRows_eq, filter_all]
    exact answer_eq ProjectRow.rowKey (clampLimit_pos limit) _
  | some k =>
    rw [Paging.page, ← fetch_below, ← selectRows_eq, filter_all]
    simp only [listProjects, Option.map_some, hbound k rfl]
    exact answer_eq ProjectRow.rowKey (clampLimit_pos limit) _

theorem listSessions_lists (sessions : List SessionSummary) :
    Lists (listSessions sessions) SessionSummary.rowKey sessions := by
  intro bound limit hbound
  rw [← filter_all sessions]
  cases bound with
  | none =>
    rw [Paging.page, ← selectRows_eq, filter_all]
    rw [← next_eq]
    rfl
  | some k =>
    rw [Paging.page, ← fetch_below, ← selectRows_eq, filter_all, ← next_eq]
    simp only [listSessions, Option.map_some, hbound k rfl]
    rfl

/-! ## Tables -/

/-- The characters of RFC 3339 timestamps. -/
def timestampChar (c : Char) : Bool :=
  c.isDigit || "-:.+ TtZz".toList.contains c

/-- The longest text that SQLite stores. -/
def sqliteMaxLength : Nat := 1000000000

/-- The time and the id of a row. -/
structure Stamped (key : String × String) : Prop where
  created : key.1 ≠ "" ∧ key.1.toList.all timestampChar = true
  id : key.2 ≠ ""
  stored : key.1.toList.length ≤ sqliteMaxLength ∧ key.2.toList.length ≤ sqliteMaxLength

/-- The rows that are listed. -/
structure ListedTables where
  sessions : List SessionSummary
  projects : List ProjectRow
  sessionIds : (sessions.map (·.id)).Nodup
  projectIds : (projects.map (·.id)).Nodup
  sessionsStamped : ∀ row ∈ sessions, Stamped row.rowKey
  projectsStamped : ∀ row ∈ projects, Stamped row.rowKey

/-- The tables at one request after the other. Rows come and go and change; only the time at which
a row was created does not, and no id is used again. -/
structure ListedHistory where
  tables : Nat → ListedTables
  sessionsKept : ∀ n m, ∀ row ∈ (tables n).sessions, ∀ row' ∈ (tables m).sessions,
    row.id = row'.id → row.createdAt = row'.createdAt
  projectsKept : ∀ n m, ∀ row ∈ (tables n).projects, ∀ row' ∈ (tables m).projects,
    row.id = row'.id → row.createdAt = row'.createdAt

theorem eq_of_id_eq {R : Type} {id : R → String} {rows : List R} (hids : (rows.map id).Nodup)
    {row row' : R} (h : row ∈ rows) (h' : row' ∈ rows) (heq : id row = id row') : row = row' :=
  List.inj_on_of_nodup_map hids h h' heq

theorem mem_of_le {R : Type} {rows : Nat → List R} (hgrows : ∀ n, rows n ⊆ rows (n + 1))
    {n m : Nat} (hle : n ≤ m) : rows n ⊆ rows m := by
  induction hle with
  | refl => exact fun _ h => h
  | step _ ih => exact fun row h => hgrows _ (ih h)

/-- Rows that are only inserted keep their time. -/
theorem kept_of_grows {R : Type} {id created : R → String} {rows : Nat → List R}
    (hids : ∀ n, ((rows n).map id).Nodup) (hgrows : ∀ n, rows n ⊆ rows (n + 1)) (n m : Nat) :
    ∀ row ∈ rows n, ∀ row' ∈ rows m, id row = id row' → created row = created row' := by
  intro row h row' h' heq
  rw [eq_of_id_eq (hids (max n m)) (mem_of_le hgrows (le_max_left n m) h)
    (mem_of_le hgrows (le_max_right n m) h') heq]

/-- Tables into which rows are only inserted. -/
def ListedHistory.ofInsertions (tables : Nat → ListedTables)
    (hsessions : ∀ n, (tables n).sessions ⊆ (tables (n + 1)).sessions)
    (hprojects : ∀ n, (tables n).projects ⊆ (tables (n + 1)).projects) : ListedHistory where
  tables := tables
  sessionsKept := kept_of_grows (fun n => (tables n).sessionIds) hsessions
  projectsKept := kept_of_grows (fun n => (tables n).projectIds) hprojects

theorem Stamped.decode {key : String × String} (h : Stamped key) :
    decodeCursor (keyCursor (toLex key)) = .ok key := by
  refine decodeCursor_encodeCursor h.created.1 (fun hbar => ?_) h.id
  have := List.all_eq_true.mp h.created.2 _ hbar
  revert this
  decide

/-- There are finitely many keys. -/
theorem finite_stamped : {k : String ×ₗ String | Stamped (ofLex k)}.Finite := by
  have hchars : Finite Char :=
    Finite.of_injective (fun c : Char => c.val.toFin) fun c d h =>
      Char.ext (UInt32.toFin_inj.mp h)
  have htexts : {s : String | s.toList.length ≤ sqliteMaxLength}.Finite :=
    Set.Finite.preimage (fun _ _ _ _ h => String.toList_inj.mp h)
      (List.finite_length_le Char sqliteMaxLength)
  have hpairs := (htexts.prod htexts).preimage
    (f := (ofLex : String ×ₗ String → String × String)) (fun _ _ _ _ h => h)
  exact hpairs.subset fun k hk => ⟨hk.stored.1, hk.stored.2⟩

/-! ## Following the cursors -/

/-- What has been read after some requests, and the cursor of the next request if there is one;
the first request has none to give. -/
def follow {T R : Type}
    (list : T → Option String → Nat → Except StoreError (List R × Option String))
    (tables : Nat → T) (limits : Nat → Nat) :
    Nat → Except StoreError (List R × Option (Option String))
  | 0 => .ok ([], some none)
  | n + 1 => do
    let (rows, next) ← follow list tables limits n
    match next with
    | none => .ok (rows, none)
    | some cursor => do
      let (found, next) ← list (tables n) cursor (limits n)
      .ok (rows ++ found, next.map some)

section Follow

variable {T R : Type} {list : T → Option String → Nat → Except StoreError (List R × Option String)}
  {shown : T → List R} {rowKey : R → String × String} {tables : Nat → T}

/-- **Following the cursors** is a walk by keys. -/
theorem follow_eq (hlist : ∀ n, Lists (list (tables n)) rowKey (shown (tables n)))
    (hids : ∀ n, ((shown (tables n)).map (orderKey rowKey)).Nodup)
    (hstamped : ∀ n, ∀ row ∈ shown (tables n), Stamped (rowKey row)) (limits : Nat → Nat)
    (n : Nat) :
    follow list tables limits n =
      let walked := Paging.walk (orderKey rowKey) (fun n => shown (tables n))
        (fun n => clampLimit (limits n)) n
      .ok (walked.1, walked.2.map (·.map keyCursor)) := by
  induction n with
  | zero => rfl
  | succ n ih =>
    rw [follow, ih, Paging.walk]
    have hwalked : Paging.Walked (orderKey rowKey) (fun n => shown (tables n)) n _ _ :=
      Paging.walked (fun n => clampLimit_pos (limits n)) hids n
    cases hnext : Paging.walk (orderKey rowKey) (fun n => shown (tables n))
      (fun n => clampLimit (limits n)) n with
    | mk rows next =>
      rw [hnext] at hwalked
      cases next with
      | none => rfl
      | some bound =>
        -- the cursor is that of a row, so it decodes
        have hdecodes : ∀ k ∈ bound, decodeCursor (keyCursor k) = .ok (ofLex k) := by
          intro k hk
          obtain ⟨-, m, -, row, hrow, rfl⟩ := hwalked.bounded k (by rw [Option.mem_def.mp hk])
          exact (hstamped m row hrow).decode
        have hanswer := hlist n bound (limits n) hdecodes
        simp only [Option.map_some, hanswer, bind, Except.bind]
        rw [Option.map_map, Option.map_map]
        rfl

/-- Following the cursors ends. What has been read then are rows of the tables, in strictly
descending order and none twice, and among them exactly once every row that was always there. -/
def ReadsExactly (list : T → Option String → Nat → Except StoreError (List R × Option String))
    (shown : T → List R) (rowKey : R → String × String) (tables : Nat → T) (limits : Nat → Nat) :
    Prop :=
  ∃ n rows, follow list tables limits n = .ok (rows, none) ∧
    rows.Pairwise (fun a b => rowBelow (rowKey b) (rowKey a)) ∧
    (rows.map fun row => (rowKey row).2).Nodup ∧
    (∀ row ∈ rows, ∃ m < n, row ∈ shown (tables m)) ∧
    ∀ key, (∀ m < n, ∃ row ∈ shown (tables m), rowKey row = key) →
      (rows.map rowKey).count key = 1

theorem reads_exactly (hlist : ∀ n, Lists (list (tables n)) rowKey (shown (tables n)))
    (hids : ∀ n, ((shown (tables n)).map fun row => (rowKey row).2).Nodup)
    (hkept : ∀ n m, ∀ row ∈ shown (tables n), ∀ row' ∈ shown (tables m),
      (rowKey row).2 = (rowKey row').2 → (rowKey row).1 = (rowKey row').1)
    (hstamped : ∀ n, ∀ row ∈ shown (tables n), Stamped (rowKey row)) (limits : Nat → Nat) :
    ReadsExactly list shown rowKey tables limits := by
  have hkeys : ∀ n, ((shown (tables n)).map (orderKey rowKey)).Nodup := by
    intro n
    refine List.Nodup.of_map (fun k : String ×ₗ String => (ofLex k).2) ?_
    rw [List.map_map]
    exact hids n
  have hlimits : ∀ n, 0 < clampLimit (limits n) := fun n => clampLimit_pos (limits n)
  obtain ⟨n, hend⟩ := Paging.walk_ends hlimits hkeys
    (finite_stamped.subset fun k hk => by
      obtain ⟨m, row, hrow, rfl⟩ := hk
      exact hstamped m row hrow)
  have hwalked := Paging.walked hlimits hkeys n
  have hfollow := follow_eq hlist hkeys hstamped limits n
  revert hend hwalked hfollow
  generalize Paging.walk (orderKey rowKey) (fun n => shown (tables n))
    (fun n => clampLimit (limits n)) n = walked
  obtain ⟨rows, next⟩ := walked
  rintro (rfl : next = none) hwalked hfollow
  have hdescending : rows.Pairwise fun a b => rowBelow (rowKey b) (rowKey a) :=
    hwalked.descending.imp fun h => (rowBelow_iff _ _).mpr h
  have hdistinct : (rows.map rowKey).Nodup := by
    rw [List.Nodup, List.pairwise_map]
    refine hwalked.descending.imp fun {a b} hlt heq => ?_
    rw [orderKey, orderKey, heq] at hlt
    exact lt_irrefl _ hlt
  refine ⟨n, rows, hfollow, hdescending, ?_, hwalked.sound, fun key hkey => ?_⟩
  · -- two rows with one id would have one time, and so one key
    rw [List.Nodup, List.pairwise_map]
    refine hwalked.descending.imp_of_mem fun {a b} ha hb hlt hid => ?_
    obtain ⟨m, -, ha⟩ := hwalked.sound a ha
    obtain ⟨m', -, hb⟩ := hwalked.sound b hb
    have hsame : rowKey a = rowKey b := Prod.ext (hkept m m' a ha b hb hid) hid
    rw [orderKey, orderKey, hsame] at hlt
    exact lt_irrefl _ hlt
  · refine List.count_eq_one_of_mem hdistinct ?_
    obtain ⟨row, hrow, hrowKey⟩ := hwalked.complete (by simp) (toLex key)
      (fun m hm => hkey m hm) (by simp)
    exact List.mem_map.mpr ⟨row, hrow, hrowKey⟩

end Follow

namespace ListedHistory

variable (history : ListedHistory) (limits : Nat → Nat)

theorem sessions_read_exactly (clause : SessionSummary → Bool)
    {list : ListedTables → Option String → Nat →
      Except StoreError (List SessionSummary × Option String)}
    (hlist : ∀ n, Lists (list (history.tables n)) SessionSummary.rowKey
      ((history.tables n).sessions.filter clause)) :
    ReadsExactly list (fun tables => tables.sessions.filter clause) SessionSummary.rowKey
      history.tables limits := by
  refine reads_exactly hlist (fun n => ?_) (fun n m row h row' h' => ?_) (fun n row h => ?_) limits
  · exact (List.filter_sublist.map _).nodup (history.tables n).sessionIds
  · exact history.sessionsKept n m row (List.mem_of_mem_filter h) row' (List.mem_of_mem_filter h')
  · exact (history.tables n).sessionsStamped row (List.mem_of_mem_filter h)

/-- **The listings are read exactly**: of all sessions, of those without a project, of those of a
project that exists throughout, and of the projects; and cursors are read as they were written. -/
theorem listings_read_exactly :
    ReadsExactly (fun tables => listSessions tables.sessions) (·.sessions) SessionSummary.rowKey
      history.tables limits ∧
    ReadsExactly (fun tables => listUnassignedSessions tables.sessions)
      (fun tables => tables.sessions.filter (·.projectId.isNone)) SessionSummary.rowKey
      history.tables limits ∧
    (∀ projectId, (∀ n, projectId ∈ (history.tables n).projects.map (·.id)) →
      ReadsExactly
        (fun tables => listProjectSessions tables.projects projectId tables.sessions)
        (fun tables => tables.sessions.filter (·.projectId = some projectId))
        SessionSummary.rowKey history.tables limits) ∧
    ReadsExactly (fun tables => listProjects tables.projects) (·.projects) ProjectRow.rowKey
      history.tables limits ∧
    ∀ createdAt id, createdAt ≠ "" → '|' ∉ createdAt.toList → id ≠ "" →
      decodeCursor (encodeCursor createdAt id) = .ok (createdAt, id) := by
  refine ⟨?_, ?_, fun projectId hproject => ?_, ?_, fun _ _ => decodeCursor_encodeCursor⟩
  · exact reads_exactly (fun n => listSessions_lists _) (fun n => (history.tables n).sessionIds)
      history.sessionsKept (fun n => (history.tables n).sessionsStamped) limits
  · exact history.sessions_read_exactly limits _ fun n => listSessionsByClause_lists _ _
  · refine history.sessions_read_exactly limits _ fun n => ?_
    have hexists : (history.tables n).projects.any (·.id = projectId) = true := by
      obtain ⟨row, hrow, hid⟩ := List.mem_map.mp (hproject n)
      exact List.any_eq_true.mpr ⟨row, hrow, decide_eq_true hid⟩
    intro bound limit hbound
    rw [listProjectSessions, if_pos hexists]
    exact listSessionsByClause_lists _ _ bound limit hbound
  · exact reads_exactly (fun n => listProjects_lists _) (fun n => (history.tables n).projectIds)
      history.projectsKept (fun n => (history.tables n).projectsStamped) limits

end ListedHistory

end Piqo