import BVault.Gateway.Audio
import BVault.Jobs.Rows
import BVault.Lib.Hex

/-!
# From a request to a stored analysis

The requests that lead to analysis jobs, and the worker that claims the jobs,
analyzes and stores. The gateway looks for a bundle and enqueues in two steps,
the worker looks again, analyzes, looks once more and writes; any number of
gateways and workers take these steps in any order, and may stop after each.
-/

namespace BVault.Worker

open BVault.Gateway BVault.Hash BVault.Jobs BVault.Store

/-- What makes the gateway enqueue an analysis. -/
inductive Request where
  | ingestUpload (chunks : List Bytes) (fileName titleOverride : Option String)
  /-- One file of a folder import. -/
  | ingestGdrive (chunks : List Bytes) (name : String)
  /-- One of the tracks that the requested playlists resolve to. -/
  | analyze (hash rawLocation : String)
  deriving DecidableEq, Repr

/-- What the worker passes to `analyze_source`. -/
structure Source where
  bytes : Bytes
  hintExt : Option String
  fileSize : Nat
  fileHash : UInt64
  fallbackTitle : Option String
  deriving DecidableEq

/-- `u64::from_str_radix(hash, 16)`. -/
def fromStrRadix16 (hash : String) : Option UInt64 :=
  let digits := if hash.toList.head? = some '+' then hash.toList.tail else hash.toList
  if digits = [] then none else (Hex.value (2 ^ 64) digits).map UInt64.ofNat

/-- The state that the gateways and the workers share, and what each step has handed on to a
later one. -/
structure Pipeline where
  queue : Queue
  files : FileSystem
  /-- `analysis.json` of the complete bundles. -/
  artifacts : String → Option Bytes
  /-- Jobs for which the gateway has found no bundle. -/
  wanted : List AnalysisJob
  /-- Jobs that were claimed. -/
  claimed : List AnalysisJob
  /-- Analyses to be stored, with their content hash. -/
  analyzed : List (String × Bytes)
  /-- Analyses for which `put` has found no bundle. -/
  writing : List (String × Bytes)

inductive Action where
  | receive (r : Request)
  | enqueue (i now : Nat) (maxAttempts : Int) (traceparent : Option String)
  | claim (now lease : Nat) (locked : List Nat) (tie : Nat)
  | analyze (i : Nat)
  | put (i : Nat)
  | write (i : Nat)
  | complete (now id : Nat)
  | fail (now id : Nat) (error : String)

/-- The request a step receives. -/
def Action.request : Action → Option Request
  | .receive r => some r
  | _ => none

/-- The requests received over a run, in order. -/
def received (run : List Action) : List Request := run.filterMap Action.request

/-- The payload of a row of kind `analysis`. -/
def analysisJob : Payload → Option AnalysisJob
  | .analysis job => some job
  | .ytDlpIngest _ => none

section
variable (xxh3_64 : Bytes → UInt64) (raw : RawStore)

/-- The payload that a request would enqueue. -/
def Request.job : Request → AnalysisJob
  | .ingestUpload chunks fileName titleOverride =>
    let hash := hashOfChunks xxh3_64 chunks
    { hash := hash
      rawLocation := RawStore.relPath hash ((fileName.bind Paths.extension).getD "mp3")
      fallbackTitle :=
        titleOverride.or (fileName.map (fun name => (Paths.fileStem name).getD "")) }
  | .ingestGdrive chunks name =>
    let hash := hashOfChunks xxh3_64 chunks
    { hash := hash
      rawLocation := RawStore.relPath hash ((Paths.extension name).getD "mp3")
      fallbackTitle := Paths.fileStem name }
  | .analyze hash rawLocation => ⟨hash, rawLocation, none⟩

/-- The raw files after a request came in. -/
def Request.store (files : FileSystem) : Request → FileSystem
  | .ingestUpload chunks fileName _ =>
    (raw.storeFromTemp files chunks.flatten (hashOfChunks xxh3_64 chunks)
      ((fileName.bind Paths.extension).getD "mp3")).1
  | .ingestGdrive chunks name =>
    (raw.storeFromTemp files chunks.flatten (hashOfChunks xxh3_64 chunks)
      ((Paths.extension name).getD "mp3")).1
  | .analyze _ _ => files

/-- What the worker reads for a job, if its hash is hexadecimal and the file opens. -/
def source (files : FileSystem) (job : AnalysisJob) : Option Source :=
  (fromStrRadix16 job.hash).bind fun fileHash =>
    (raw.contents files job.rawLocation).map fun bytes =>
      { bytes := bytes
        hintExt := Paths.extension job.rawLocation
        fileSize := bytes.length
        fileHash := fileHash
        fallbackTitle := job.fallbackTitle }

variable (analyzeSource : Source → Option Bytes)

/-- `Worker::analyze` up to the store: nothing to do where a bundle is, nothing to store
where an error is returned. -/
def analyze (s : Pipeline) (job : AnalysisJob) : Pipeline :=
  if (s.artifacts job.hash).isSome then s
  else
    match (source raw s.files job).bind analyzeSource with
    | none => s
    | some json => { s with analyzed := s.analyzed ++ [(job.hash, json)] }

/-- One step of some gateway or worker. An index out of range stands for no step. -/
def step (s : Pipeline) : Action → Pipeline
  | .receive r =>
    { s with
      files := r.store xxh3_64 raw s.files
      wanted :=
        if (s.artifacts (r.job xxh3_64).hash).isSome then s.wanted
        else s.wanted ++ [r.job xxh3_64] }
  | .enqueue i now maxAttempts traceparent =>
    match s.wanted[i]? with
    | none => s
    | some job =>
      { s with
        queue :=
          s.queue.step (.enqueue now .analysis job.hash (.analysis job) maxAttempts traceparent) }
  | .claim now lease locked tie =>
    let op := Op.claim now .analysis lease locked tie
    { s with
      queue := s.queue.step op
      claimed := s.claimed ++ ((s.queue.served op).bind fun row => analysisJob row.payload).toList }
  | .analyze i =>
    match s.claimed[i]? with
    | none => s
    | some job => analyze raw analyzeSource s job
  | .put i =>
    match s.analyzed[i]? with
    | none => s
    | some (hash, json) =>
      if (s.artifacts hash).isSome then s
      else { s with writing := s.writing ++ [(hash, json)] }
  | .write i =>
    match s.writing[i]? with
    | none => s
    | some (hash, json) =>
      { s with artifacts := fun h => if h = hash then some json else s.artifacts h }
  | .complete now id => { s with queue := s.queue.step (.complete now id) }
  | .fail now id error => { s with queue := s.queue.step (.fail now id error) }

/-- No jobs and no bundles; the store may hold any files. -/
def start (files : FileSystem) : Pipeline :=
  ⟨Queue.empty, files, fun _ => none, [], [], [], []⟩

/-- The state after a run. -/
def after (files : FileSystem) (run : List Action) : Pipeline :=
  Runs.run (step xxh3_64 raw analyzeSource) (start files) run

/-- The raw files after some requests came in. -/
def storeAll (files : FileSystem) (requests : List Request) : FileSystem :=
  requests.foldl (Request.store xxh3_64 raw) files

end

/-- The worker gets back the hash that the ingestion has computed. -/
theorem fromStrRadix16_hashHex (hash : UInt64) : fromStrRadix16 (hashHex hash) = some hash := by
  have digits : (hashHex hash).toList = List.leftpad 16 '0' (Nat.toDigits 16 hash.toNat) := by
    rw [hashHex, String.toList_ofList]
  have unsigned : '+' ∉ (hashHex hash).toList := by
    rw [digits, List.leftpad, List.mem_append]
    rintro (zero | digit)
    · exact absurd (List.eq_of_mem_replicate zero) (by decide)
    · exact Hex.plus_not_mem_toDigits _ digit
  have first : (hashHex hash).toList.head? ≠ some '+' :=
    fun head => unsigned (List.mem_of_head? head)
  have some_ : (hashHex hash).toList ≠ [] := by
    rw [digits, List.leftpad]
    exact fun none_ => Nat.toDigits_ne_nil (List.append_eq_nil_iff.mp none_).2
  rw [fromStrRadix16, if_neg first, if_neg some_, value_hashHex, Option.map_some,
    UInt64.ofNat_toNat]

end BVault.Worker
