import BVault.Transfer.Cleanup

/-!
# What the hash check of a transfer sees

A raw file is checked against the identity its content was ingested under. That
identity is computed from the first MiB and the length, so the check tells apart
what differs there, and nothing behind it. How the body was cut into chunks is
of no matter.
-/

namespace BVault.Transfer.AnyTarget

open BVault.Hash

/-- The data of a body, up to where it breaks off. -/
def dataOf : List Chunk → Bytes
  | [] => []
  | .data bytes _ :: rest => bytes ++ dataOf rest
  | .networkError _ :: _ => []

/-- The file is requested, answered, opened and written to the end. -/
structure Received (e : ManifestEntry) (a : Answers) : Prop where
  goes : ¬ Interrupts e a
  differs : ¬ Skips e a
  sent : ∃ status, a.send = .ok status ∧ status.isSuccess = true
  opened : a.create = .ok ()
  arrives : Arrives a.body

/-- What is reported about a file with another hash. -/
def hashMismatch (e : ManifestEntry) : Event :=
  .report (.error e.usbPath "Hash mismatch: file corrupted during transfer")

theorem mismatch_ne_commit (err : String) :
    "Hash mismatch: file corrupted during transfer" ≠ "Commit error: " ++ err := by
  intro same
  have first := congrArg (fun text => text.toList.head?) same
  simp at first

/-- The hasher at the end of a body has seen its data. -/
theorem hashed_seen {body : List Chunk} (arrives : Arrives body) {hasher : ContentHasher}
    {data : Bytes} (seen : hasher.Seen data) : (hashed body hasher).Seen (data ++ dataOf body) := by
  induction body generalizing hasher data with
  | nil =>
    rw [dataOf, List.append_nil]
    exact seen
  | cons c body ih =>
    obtain ⟨bytes, rfl⟩ := arrives c List.mem_cons_self
    have later := ih (fun c mem => arrives c (List.mem_cons_of_mem _ mem)) (seen.update bytes)
    rw [List.append_assoc] at later
    exact later

section
variable {xxh3_64 : Bytes → UInt64} {e : ManifestEntry} {a : Answers}

/-- The check passes for what hashes like the file in the store. -/
theorem verified_iff (arrives : Arrives a.body) {raw : Bytes}
    (source : e.source = .raw (hashHex (hashBytes xxh3_64 raw))) :
    verified xxh3_64 e.source (hashed a.body ContentHasher.new) = true ↔
      hashBytes xxh3_64 (dataOf a.body) = hashBytes xxh3_64 raw := by
  have seen := hashed_seen arrives ContentHasher.seen_new
  rw [List.nil_append] at seen
  simp only [verified, source, seen.finalize, decide_eq_true_eq]
  constructor
  · exact hashHex_injective
  · exact congrArg hashHex

/-- A committed file was received to its end, and verified. -/
theorem received_of_committed (committed : .committed e.usbPath ∈ (reconcileEntry xxh3_64 e a).1) :
    Received e a ∧ verified xxh3_64 e.source (hashed a.body ContentHasher.new) = true := by
  by_cases goes : Interrupts e a
  · exfalso
    rw [reconcileEntry] at committed
    cases made : a.ensureDir with
    | error err => simp [made] at committed
    | ok u =>
      cases found : a.fileLen with
      | error err => simp [made, found] at committed
      | ok len =>
        rcases goes with dirs | stat | ⟨other, request⟩
        · exact dirs made
        · exact stat len found
        · have differs : len ≠ some e.size := by
            rintro rfl
            exact other found
          cases sent : a.send with
          | error err => simp [made, found, sent, differs] at committed
          | ok status => exact request status sent
  · obtain ⟨turn, ran, _, missed⟩ := reconcileEntry_spec xxh3_64 goes
    rw [ran] at committed
    by_cases skips : Skips e a
    · exfalso
      obtain ⟨made, _⟩ : a.ensureDir = .ok () ∧ _ := by simpa [Interrupts] using goes
      rw [reconcileEntry, made, skips] at ran
      simp only [if_true] at ran
      cases ran
      simp at committed
    · have fetches : Fetches xxh3_64 e a := by
        by_contra fails
        exact (missed ⟨goes, skips, fails⟩).1 (Or.inr committed)
      exact ⟨⟨goes, skips, fetches.sent, fetches.opened, fetches.arrives⟩, fetches.verified⟩

/-- What happens to a file that was received to its end. -/
theorem reconcileEntry_received (xxh3_64 : Bytes → UInt64) (received : Received e a) :
    ∃ events, Quiet events ∧ (reconcileEntry xxh3_64 e a).1 = events ++
      if verified xxh3_64 e.source (hashed a.body ContentHasher.new) then commit e.usbPath a.commit
      else [hashMismatch e, .aborted e.usbPath] := by
  obtain ⟨made, found, _⟩ : a.ensureDir = .ok () ∧ (∃ len, a.fileLen = .ok len) ∧ _ := by
    simpa [Interrupts] using received.goes
  obtain ⟨len, found⟩ := found
  obtain ⟨status, sent, success⟩ := received.sent
  obtain ⟨events, loop, quiet⟩ :=
    receive_arrives e.usbPath received.arrives ContentHasher.new
  have differs : len ≠ some e.size := by
    rintro rfl
    exact received.differs found
  refine ⟨.report (.fileStart e.usbPath e.size) :: events, ?_, ?_⟩
  · intro x mem
    rcases List.mem_cons.mp mem with rfl | mem
    · exact Or.inr ⟨_, _, rfl⟩
    · exact quiet x mem
  · rw [reconcileEntry, made]
    simp only [found, if_neg differs, sent, download, success, not_true_eq_false, if_false,
      received.opened, writeFile, loop]
    split
    · rfl
    · rfl

theorem committed_of_quiet {events rest : List Event} (quiet : Quiet events) :
    .committed e.usbPath ∈ events ++ rest ↔ .committed e.usbPath ∈ rest := by
  have absent : Event.committed e.usbPath ∉ events := by
    intro mem
    rcases quiet _ mem with ⟨_, same⟩ | ⟨_, _, same⟩ <;> cases same
  simp only [List.mem_append, absent, false_or]

end

/-- The turns of a run are those of the first entries. -/
theorem turn_of_run {xxh3_64 : Bytes → UInt64} {run : List (ManifestEntry × Answers)} {i : Nat}
    {turn : List Event} (turned : (reconcileEntries xxh3_64 run).1[i]? = some turn) :
    ∃ ea, run[i]? = some ea ∧ turn = (reconcileEntry xxh3_64 ea.1 ea.2).1 := by
  induction run generalizing i with
  | nil => cases turned
  | cons ea run ih =>
    obtain ⟨e, a⟩ := ea
    rw [reconcileEntries] at turned
    cases entry : reconcileEntry xxh3_64 e a with
    | mk events result =>
      rw [entry] at turned
      cases i with
      | zero =>
        refine ⟨(e, a), rfl, ?_⟩
        rw [entry]
        cases result with
        | error err => exact (Option.some.inj turned).symm
        | ok u => exact (Option.some.inj turned).symm
      | succ i =>
        cases result with
        | error err => cases turned
        | ok u => exact ih turned

/-- A turn is that of the entry at its place in the manifest. -/
theorem turn_of_export {xxh3_64 : Bytes → UInt64} {status : Status} {m : Manifest}
    {answers : Nat → Answers} {i : Nat} {e : ManifestEntry} {turn : List Event}
    (entry : m.entries[i]? = some e)
    (turned : (reconcileExport xxh3_64 (.response status (some m)) answers).turns[i]? = some turn) :
    turn = (reconcileEntry xxh3_64 e (answers i)).1 := by
  simp only [reconcileExport] at turned
  split at turned
  · cases turned
  · have looped : (reconcileEntries xxh3_64 (answered m answers)).1[i]? = some turn := by
      cases loop : reconcileEntries xxh3_64 (answered m answers) with
      | mk turns result =>
        rw [loop] at turned
        cases result with
        | error err => exact turned
        | ok u => exact turned
    obtain ⟨ea, here, rfl⟩ := turn_of_run looped
    rw [answered, List.getElem?_mapIdx, entry] at here
    obtain rfl := Option.some.inj here
    rfl

/-- In whatever pieces a raw file comes in: if it is committed, it agrees with the file in the
store in the first MiB and the length, and a file received to its end that does not is reported
as corrupted and not committed. What agrees there is not looked at any further. -/
theorem verification_sees_sample (xxh3_64 : Bytes → UInt64) (status : Status) (m : Manifest)
    (answers : Nat → Answers) {i : Nat} {e : ManifestEntry} {turn : List Event} {raw : Bytes}
    (entry : m.entries[i]? = some e)
    (turned : (reconcileExport xxh3_64 (.response status (some m)) answers).turns[i]? = some turn)
    (source : e.source = .raw (hashHex (hashBytes xxh3_64 raw)))
    (injective : xxh3_64 (sampled (dataOf (answers i).body)) = xxh3_64 (sampled raw) →
      sampled (dataOf (answers i).body) = sampled raw) :
    (.committed e.usbPath ∈ turn → SameSample (dataOf (answers i).body) raw) ∧
    (Received e (answers i) → ¬ SameSample (dataOf (answers i).body) raw →
      hashMismatch e ∈ turn ∧ .committed e.usbPath ∉ turn) ∧
    (Received e (answers i) → SameSample (dataOf (answers i).body) raw →
      hashMismatch e ∉ turn ∧ ((answers i).commit = .ok () → .committed e.usbPath ∈ turn)) := by
  have made := turn_of_export entry turned
  have passes (arrives : Arrives (answers i).body) :
      verified xxh3_64 e.source (hashed (answers i).body ContentHasher.new) = true ↔
        SameSample (dataOf (answers i).body) raw := by
    rw [verified_iff arrives source, ← sampled_eq_iff]
    constructor
    · exact injective
    · exact congrArg xxh3_64
  subst made
  refine ⟨?_, ?_, ?_⟩
  · intro committed
    obtain ⟨received, checked⟩ := received_of_committed committed
    exact (passes received.arrives).mp checked
  · intro received differs
    obtain ⟨events, quiet, made⟩ := reconcileEntry_received xxh3_64 received
    have refused := mt (passes received.arrives).mp differs
    rw [made, if_neg refused, committed_of_quiet quiet]
    constructor
    · exact List.mem_append_right _ List.mem_cons_self
    · simp [hashMismatch]
  · intro received same
    obtain ⟨events, quiet, made⟩ := reconcileEntry_received xxh3_64 received
    rw [made, if_pos ((passes received.arrives).mpr same), committed_of_quiet quiet]
    constructor
    · intro mem
      rcases List.mem_append.mp mem with early | late
      · rcases quiet _ early with ⟨_, same⟩ | ⟨_, _, same⟩ <;> cases same
      · cases done : (answers i).commit with
        | error err =>
          have text := mismatch_ne_commit err
          simp [done, commit, hashMismatch] at late
          exact text late
        | ok u => simp [done, commit, hashMismatch] at late
    · intro done
      simp [done, commit]

/-- The server sends this, and nothing else goes wrong. -/
def answer (body : Bytes) : Answers where
  ensureDir := .ok ()
  fileLen := .ok none
  send := .ok ⟨200, "200 OK"⟩
  create := .ok ()
  body := [.data body (.ok ())]
  commit := .ok ()

theorem received_answer (e : ManifestEntry) (body : Bytes) : Received e (answer body) where
  goes := by simp [Interrupts, answer]
  differs := by simp [Skips, answer]
  sent := ⟨_, rfl, rfl⟩
  opened := rfl
  arrives := by
    intro c mem
    exact ⟨body, List.mem_singleton.mp mem⟩

/-- A manifest of one raw file, of this content in the store. -/
def rawTrack (xxh3_64 : Bytes → UInt64) (raw : Bytes) : ManifestEntry :=
  ⟨"Contents/a1.mp3", raw.length, .raw (hashHex (hashBytes xxh3_64 raw))⟩

/-- The run for one raw file that comes in as these bytes. -/
def rawRun (xxh3_64 : Bytes → UInt64) (raw body : Bytes) : Run :=
  reconcileExport xxh3_64 (.response ⟨200, "200 OK"⟩ (some ⟨[rawTrack xxh3_64 raw]⟩))
    (fun _ => answer body)

theorem rawRun_turns (xxh3_64 : Bytes → UInt64) (raw body : Bytes) :
    (rawRun xxh3_64 raw body).turns =
      [(reconcileEntry xxh3_64 (rawTrack xxh3_64 raw) (answer body)).1] := by
  have loop : (reconcileEntries xxh3_64 [(rawTrack xxh3_64 raw, answer body)]).1 =
      [(reconcileEntry xxh3_64 (rawTrack xxh3_64 raw) (answer body)).1] := by
    rw [reconcileEntries]
    cases reconcileEntry xxh3_64 (rawTrack xxh3_64 raw) (answer body) with
    | mk events result =>
      cases result with
      | error err => rfl
      | ok u => rfl
  rw [← loop]
  simp only [rawRun, reconcileExport]
  rw [if_neg (by decide)]
  simp only [answered, List.mapIdx_cons, List.mapIdx_nil]
  cases reconcileEntries xxh3_64 [(rawTrack xxh3_64 raw, answer body)] with
  | mk turns result =>
    cases result with
    | error err => rfl
    | ok u => rfl

/-- A hash that tells the buffers below apart. -/
def firstWord (bs : Bytes) : UInt64 := UInt64.ofNat (Bytes.leNat bs)

/-- A flipped byte of a short file is found. -/
theorem flippedByte_refused :
    .committed "Contents/a1.mp3" ∉ (rawRun firstWord [1, 2, 3] [1, 2, 4]).turns.flatten := by
  have first : (rawRun firstWord [1, 2, 3] [1, 2, 4]).turns[0]? =
      some (reconcileEntry firstWord (rawTrack firstWord [1, 2, 3]) (answer [1, 2, 4])).1 := by
    rw [rawRun_turns]
    rfl
  have refused := (verification_sees_sample firstWord ⟨200, "200 OK"⟩
    ⟨[rawTrack firstWord [1, 2, 3]]⟩ (fun _ => answer [1, 2, 4]) rfl first rfl
    (by decide +kernel)).2.1 (received_answer _ _) (by decide +kernel)
  rw [rawRun_turns, List.flatten_cons, List.flatten_nil, List.append_nil]
  exact refused.2

/-- A file one byte longer than the window, and a copy whose last byte is damaged. -/
def original : Bytes := List.replicate SAMPLE_BYTES 0 ++ [1]

def damaged : Bytes := List.replicate SAMPLE_BYTES 0 ++ [2]

theorem damaged_sameSample : SameSample damaged original :=
  sameSample_append List.length_replicate rfl

/-- The damaged copy is committed, though the hash tells the two buffers apart: there is only
one. -/
theorem damagedTail_committed :
    damaged ≠ original ∧ sampled damaged = sampled original ∧
    .committed "Contents/a1.mp3" ∈ (rawRun firstWord original damaged).turns.flatten := by
  have same := (sampled_eq_iff _ _).mpr damaged_sameSample
  refine ⟨?_, same, ?_⟩
  · intro equal
    have last := List.append_cancel_left equal
    simp at last
  · have received := received_answer (rawTrack firstWord original) damaged
    obtain ⟨events, _, made⟩ := reconcileEntry_received firstWord received
    have data : dataOf (answer damaged).body = damaged := List.append_nil _
    have checked : verified firstWord (rawTrack firstWord original).source
        (hashed (answer damaged).body ContentHasher.new) = true := by
      rw [verified_iff received.arrives rfl, data]
      exact congrArg firstWord same
    rw [rawRun_turns, made, if_pos checked, List.flatten_cons]
    apply List.mem_append_left
    apply List.mem_append_right
    exact List.mem_cons_self

end BVault.Transfer.AnyTarget
