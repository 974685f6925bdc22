import BVault.Lib.Bytes
import BVault.Lib.Hex

/-!
# Content identity

A file's identity is `xxh3_64` over the first MiB of its content followed by its
length. The hash function is a parameter.
-/

namespace BVault.Hash

def SAMPLE_BYTES : Nat := 1024 * 1024

section
variable (xxh3_64 : Bytes → UInt64)

/-- Content identity for an in-memory buffer. -/
def hashBytes (data : Bytes) : UInt64 :=
  xxh3_64 (data.take SAMPLE_BYTES ++ Bytes.leBytes 8 data.length)

/-- `format!("{hash:016x}")`. -/
def hashHex (hash : UInt64) : String :=
  String.ofList (List.leftpad 16 '0' (Nat.toDigits 16 hash.toNat))

structure ContentHasher where
  sample : Bytes
  total : Nat

namespace ContentHasher

def new : ContentHasher := ⟨[], 0⟩

def update (h : ContentHasher) (bytes : Bytes) : ContentHasher where
  sample :=
    if h.sample.length < SAMPLE_BYTES then
      h.sample ++ bytes.take (min (SAMPLE_BYTES - h.sample.length) bytes.length)
    else h.sample
  total := h.total + bytes.length

def finalize (h : ContentHasher) : UInt64 := xxh3_64 (h.sample ++ Bytes.leBytes 8 h.total)

/-- Total bytes fed so far. -/
def len (h : ContentHasher) : Nat := h.total

/-- `Write::write`, with the number of bytes taken. -/
def write (h : ContentHasher) (buf : Bytes) : ContentHasher × Nat := (h.update buf, buf.length)

/-- One way to feed a chunk. -/
inductive Feed where
  | update (bytes : Bytes)
  | write (buf : Bytes)

def Feed.bytes : Feed → Bytes
  | .update bytes => bytes
  | .write buf => buf

def feed (h : ContentHasher) : Feed → ContentHasher
  | .update bytes => h.update bytes
  | .write buf => (h.write buf).1

/-- `Write::write_all`: writes what is left until nothing is. -/
def writeAll (h : ContentHasher) (buf : Bytes) : ContentHasher :=
  match buf with
  | [] => h
  | b :: rest => writeAll (h.write (b :: rest)).1 ((b :: rest).drop (h.write (b :: rest)).2)
termination_by buf.length
decreasing_by simp [write]

/-- `io::copy` from a reader that gives these bytes read by read. -/
def copy (h : ContentHasher) (reads : List Bytes) : ContentHasher := reads.foldl writeAll h

/-- The hash that an upload gets, chunk by chunk. -/
def uploadHash (chunks : List Bytes) : UInt64 :=
  (chunks.foldl ContentHasher.update .new).finalize xxh3_64

/-- The hash in `analyze_path`. -/
def analyzePathHash (reads : List Bytes) : UInt64 := (new.copy reads).finalize xxh3_64

/-- The hasher has seen this content. -/
def Seen (h : ContentHasher) (data : Bytes) : Prop :=
  h.sample = data.take SAMPLE_BYTES ∧ h.total = data.length

theorem Seen.update {h : ContentHasher} {data : Bytes} (seen : Seen h data) (bytes : Bytes) :
    Seen (h.update bytes) (data ++ bytes) := by
  obtain ⟨sample, total⟩ := seen
  have length := congrArg List.length sample
  rw [List.length_take] at length
  constructor
  · rw [ContentHasher.update, List.take_append, ← sample]
    dsimp only
    split
    · rename_i room
      have all : h.sample.length = data.length := by omega
      rw [all, ← List.take_take, List.take_length]
    · have full : SAMPLE_BYTES - data.length = 0 := by omega
      rw [full, List.take_zero, List.append_nil]
  · rw [ContentHasher.update, List.length_append]
    dsimp only
    rw [total]

theorem Seen.finalize {h : ContentHasher} {data : Bytes} (seen : Seen h data) :
    h.finalize xxh3_64 = hashBytes xxh3_64 data := by
  obtain ⟨sample, total⟩ := seen
  rw [ContentHasher.finalize, sample, total, hashBytes]

theorem seen_new : Seen new [] := ⟨rfl, rfl⟩

/-- Both ways to feed a chunk show it to the hasher. -/
theorem Seen.feed {h : ContentHasher} {data : Bytes} (seen : Seen h data) (chunk : Feed) :
    Seen (h.feed chunk) (data ++ chunk.bytes) := by
  cases chunk with
  | update bytes => exact seen.update bytes
  | write buf => exact seen.update buf

/-- After any chunks, fed in either way, the hasher has seen them all. -/
theorem Seen.feeds {h : ContentHasher} {data : Bytes} (seen : Seen h data) (chunks : List Feed) :
    Seen (chunks.foldl ContentHasher.feed h) (data ++ (chunks.map Feed.bytes).flatten) := by
  induction chunks generalizing h data with
  | nil => simpa using seen
  | cons chunk chunks ih =>
    have next := ih (seen.feed chunk)
    rwa [List.append_assoc, ← List.flatten_cons, ← List.map_cons] at next

/-- Hashing chunk by chunk is hashing the whole. -/
theorem finalize_updates (chunks : List Bytes) :
    finalize xxh3_64 (chunks.foldl ContentHasher.update .new) =
      hashBytes xxh3_64 chunks.flatten := by
  have seen := seen_new.feeds (chunks.map Feed.update)
  have bytes : (chunks.map Feed.update).map Feed.bytes = chunks := by
    rw [List.map_map]
    exact List.map_id chunks
  rw [List.nil_append, bytes, List.foldl_map] at seen
  exact seen.finalize xxh3_64

theorem writeAll_eq (h : ContentHasher) (buf : Bytes) (some_ : buf ≠ []) :
    h.writeAll buf = h.update buf := by
  obtain ⟨b, rest, rfl⟩ := List.exists_cons_of_ne_nil some_
  have left : (b :: rest).drop (h.write (b :: rest)).2 = [] := List.drop_length
  rw [writeAll, left, writeAll]
  rfl

theorem Seen.writeAll {h : ContentHasher} {data : Bytes} (seen : Seen h data) (buf : Bytes) :
    Seen (h.writeAll buf) (data ++ buf) := by
  by_cases empty : buf = []
  · subst empty
    rw [List.append_nil, ContentHasher.writeAll]
    exact seen
  · rw [writeAll_eq h buf empty]
    exact seen.update buf

theorem Seen.copy {h : ContentHasher} {data : Bytes} (seen : Seen h data) (reads : List Bytes) :
    Seen (h.copy reads) (data ++ reads.flatten) := by
  induction reads generalizing h data with
  | nil => simpa [ContentHasher.copy] using seen
  | cons buf reads ih =>
    have next := ih (seen.writeAll buf)
    rwa [List.append_assoc, ← List.flatten_cons] at next

/-- However a content is cut and fed, the hasher gives its identity and its length; an upload
and `analyze_path` that get it in the same pieces find the same identity. -/
theorem streaming_eq_one_shot (chunks : List Feed) :
    (chunks.foldl feed .new).finalize xxh3_64 =
        hashBytes xxh3_64 (chunks.map Feed.bytes).flatten ∧
      (chunks.foldl feed .new).len = (chunks.map Feed.bytes).flatten.length ∧
      uploadHash xxh3_64 (chunks.map Feed.bytes) =
        hashBytes xxh3_64 (chunks.map Feed.bytes).flatten ∧
      analyzePathHash xxh3_64 (chunks.map Feed.bytes) =
        hashBytes xxh3_64 (chunks.map Feed.bytes).flatten := by
  have seen := seen_new.feeds chunks
  have copied := seen_new.copy (chunks.map Feed.bytes)
  rw [List.nil_append] at seen copied
  refine ⟨seen.finalize xxh3_64, seen.2, ?_, copied.finalize xxh3_64⟩
  exact finalize_updates xxh3_64 (chunks.map Feed.bytes)

end ContentHasher
end

/-- The hexadecimal form spells the hash. -/
theorem value_hashHex (hash : UInt64) :
    Hex.value (2 ^ 64) (hashHex hash).toList = some hash.toNat := by
  have read := Hex.value_padded Hex.spells_lower hash.toNat_lt
    (16 - (Nat.toDigits 16 hash.toNat).length)
  rw [List.map_id] at read
  rw [hashHex, String.toList_ofList, List.leftpad]
  exact read

theorem hashHex_injective {hash hash' : UInt64} (same : hashHex hash = hashHex hash') :
    hash = hash' := by
  have values := value_hashHex hash
  rw [same, value_hashHex] at values
  exact (UInt64.toNat_inj.mp (Option.some.inj values)).symm

/-- The hexadecimal form has letters and digits only. -/
theorem isAlphanum_of_mem_hashHex {hash : UInt64} {c : Char} (mem : c ∈ (hashHex hash).toList) :
    c.isAlphanum := by
  rw [hashHex, String.toList_ofList, List.leftpad, List.mem_append] at mem
  rcases mem with zeros | digit
  · obtain rfl := List.eq_of_mem_replicate zeros
    decide
  · obtain ⟨d, isDigit, rfl⟩ := Hex.mem_toDigits (by decide) digit
    exact Hex.digitChar_isAlphanum d isDigit

theorem hashHex_ne_nil (hash : UInt64) : (hashHex hash).toList ≠ [] := by
  apply List.ne_nil_of_length_pos
  rw [hashHex, String.toList_ofList, List.length_leftpad]
  omega

/-- The buffer that is hashed for a content. -/
def sampled (data : Bytes) : Bytes := data.take SAMPLE_BYTES ++ Bytes.leBytes 8 data.length

/-- Two contents agree in their first MiB and in their length as a `u64`. -/
def SameSample (data data' : Bytes) : Prop :=
  data.take SAMPLE_BYTES = data'.take SAMPLE_BYTES ∧
    data.length % 2 ^ 64 = data'.length % 2 ^ 64

instance (data data' : Bytes) : Decidable (SameSample data data') :=
  inferInstanceAs (Decidable (_ ∧ _))

/-- What comes behind the first MiB is not seen. -/
theorem sameSample_append {window tail tail' : Bytes} (full : window.length = SAMPLE_BYTES)
    (lengths : tail.length = tail'.length) : SameSample (window ++ tail) (window ++ tail') := by
  constructor
  · rw [List.take_left' full, List.take_left' full]
  · rw [List.length_append, List.length_append, lengths]

/-- The buffer shows the first MiB and the length, and nothing else. -/
theorem sampled_eq_iff (data data' : Bytes) :
    sampled data = sampled data' ↔ SameSample data data' := by
  constructor
  · intro same
    obtain ⟨first, length⟩ := List.append_inj' same (by simp)
    have lengths := congrArg Bytes.leNat length
    rw [Bytes.leNat_leBytes, Bytes.leNat_leBytes] at lengths
    exact ⟨first, lengths⟩
  · rintro ⟨first, length⟩
    rw [sampled, sampled, first, Bytes.leBytes_congr length]

end BVault.Hash
