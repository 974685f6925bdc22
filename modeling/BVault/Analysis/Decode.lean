import BVault.Lib.Buffers
import Mathlib.Algebra.BigOperators.Group.List.Basic
import Mathlib.Algebra.Ring.Nat
import Mathlib.Algebra.Ring.Rat
import Mathlib.Data.Rat.Defs

/-!
# Decoding

The packets of the default track are mixed down to one channel and buffered for
the analysis. All frames are counted, and whole packets are buffered as long as
the buffer is below its cap; so it is longer than the cap where that falls
inside a packet. `α` are the `f32` numbers and `φ` the `f64` ones.
-/

namespace BVault.Analysis

/-- Samples by channel and frame. -/
structure AudioBuffer (σ : Type*) where
  channels : Nat
  frames : Nat
  chan : Nat → Nat → σ

/-- A decoded packet, in one of the common formats or another. -/
inductive AudioBufferRef (α : Type*) where
  | f32 (buf : AudioBuffer α)
  | s16 (buf : AudioBuffer Int16)
  | s32 (buf : AudioBuffer Int32)
  | other (frames : Nat)

def AudioBufferRef.frames {α : Type*} : AudioBufferRef α → Nat
  | .f32 buf => buf.frames
  | .s16 buf => buf.frames
  | .s32 buf => buf.frames
  | .other frames => frames

/-- One of the formats that are mixed down. -/
def AudioBufferRef.Common {α : Type*} : AudioBufferRef α → Prop
  | .other _ => False
  | _ => True

/-- What `next_packet` returns, with what the decoder makes of it. -/
inductive NextPacket (α : Type*) where
  | packet (trackId : Nat) (decoded : Except String (AudioBufferRef α))
  | error (text : String)

structure CodecParams where
  sampleRate : Option UInt32
  bitsPerSample : Option UInt32
  bitsPerCodedSample : Option UInt32

/-- A probed source: its default track, whether there is a codec for it, its packets up to the
end of the stream, and its tags. -/
structure Probed (α μ : Type*) where
  defaultTrack : Option (Nat × CodecParams)
  codec : Except String Unit
  packets : List (NextPacket α)
  metadata : μ

inductive FileType where
  | unknown
  | mp3
  | m4a
  | flac
  | wav
  | aiff
  deriving DecidableEq

def FileType.fromExtension (ext : String) : FileType :=
  match ext.toLower with
  | "mp3" => .mp3
  | "m4a" | "aac" => .m4a
  | "flac" => .flac
  | "wav" => .wav
  | "aiff" | "aif" => .aiff
  | _ => .unknown

inductive DecodeError where
  | decode (text : String)
  | noDefaultTrack
  | unknownSampleRate

structure DecodedAudio (α φ μ : Type*) where
  samples : List α
  durationSecs : φ
  sampleRate : UInt32
  bitDepth : UInt16
  bitrate : UInt32
  fileType : FileType
  metadata : μ

/-- kbps, from the coded sample size or as for stereo. -/
def bitrateOf (params : CodecParams) (rate : UInt32) (bitDepth : UInt16) : UInt32 :=
  match params.bitsPerCodedSample with
  | some bits => bits * rate / 1000
  | none =>
    if bitDepth = 16 then rate * 16 * 2 / 1000
    else if bitDepth = 24 then rate * 24 * 2 / 1000
    else 320

section
variable {α φ μ : Type*} [Zero α] [Add α] [Div α] [IntCast α] [NatCast φ] [Div φ]

/-- The mean of a frame's channels. -/
def monoFrame (channels : Nat) (sample : Nat → α) : α :=
  (List.range channels).foldl (fun sum c => sum + sample c) 0 / ((channels : Int) : α)

/-- `out.push` for each frame. -/
def pushFrames (frames : Nat) (mono : Nat → α) (out : List α) : List α :=
  (List.range frames).foldl (fun out frame => out ++ [mono frame]) out

/-- Downmix a decoded buffer to mono and append it; other formats are skipped. -/
def appendMonoF32 (buffer : AudioBufferRef α) (out : List α) : List α :=
  match buffer with
  | .f32 buf =>
    pushFrames buf.frames (fun frame => monoFrame buf.channels (fun c => buf.chan c frame)) out
  | .s16 buf =>
    pushFrames buf.frames (fun frame => monoFrame buf.channels (fun c =>
      ((buf.chan c frame).toInt : α) / ((32768 : Int) : α))) out
  | .s32 buf =>
    pushFrames buf.frames (fun frame => monoFrame buf.channels (fun c =>
      ((buf.chan c frame).toInt : α) / ((2147483648 : Int) : α))) out
  | .other _ => out

/-- The loop over the packets, with the samples and the count of frames so far. -/
def decodeLoop (trackId maxSamples : Nat) :
    List (NextPacket α) → List α × Nat → Except DecodeError (List α × Nat)
  | [], s => .ok s
  | .error text :: _, _ => .error (.decode text)
  | .packet id decoded :: rest, s =>
    if id ≠ trackId then decodeLoop trackId maxSamples rest s
    else
      match decoded with
      | .error text => .error (.decode text)
      | .ok buffer =>
        decodeLoop trackId maxSamples rest
          (if s.1.length < maxSamples then appendMonoF32 buffer s.1 else s.1, s.2 + buffer.frames)

def decode (probed : Except String (Probed α μ)) (hintExt : Option String) (maxSamples : Nat) :
    Except DecodeError (DecodedAudio α φ μ) :=
  match probed with
  | .error text => .error (.decode text)
  | .ok source =>
    match source.defaultTrack with
    | none => .error .noDefaultTrack
    | some (trackId, params) =>
      match params.sampleRate with
      | none => .error .unknownSampleRate
      | some rate =>
        let bitDepth := (params.bitsPerSample.getD 16).toUInt16
        match source.codec with
        | .error text => .error (.decode text)
        | .ok () =>
          (decodeLoop trackId maxSamples source.packets ([], 0)).map (fun (samples, total) =>
            { samples := samples
              durationSecs := (total : φ) / (rate.toNat : φ)
              sampleRate := rate
              bitDepth := bitDepth
              bitrate := bitrateOf params rate bitDepth
              fileType := (hintExt.map FileType.fromExtension).getD .unknown
              metadata := source.metadata })

/-- The decoded packets of a track. -/
def buffersOf (trackId : Nat) (packets : List (NextPacket α)) : List (AudioBufferRef α) :=
  packets.filterMap (fun next =>
    match next with
    | .packet id (.ok buffer) => if id = trackId then some buffer else none
    | _ => none)

def Probed.buffers (source : Probed α μ) : List (AudioBufferRef α) :=
  match source.defaultTrack with
  | none => []
  | some (trackId, _) => buffersOf trackId source.packets

/-- The frames of a buffer, mixed down. -/
def mono (buffer : AudioBufferRef α) : List α := appendMonoF32 buffer []

/-- All frames of the source, mixed down. -/
def Probed.pcm (source : Probed α μ) : List α := (source.buffers.map mono).flatten

omit [Zero α] [Add α] [Div α] [IntCast α] in
theorem pushFrames_eq (frames : Nat) (sample : Nat → α) (out : List α) :
    pushFrames frames sample out = out ++ (List.range frames).map sample := by
  rw [pushFrames]
  generalize List.range frames = indices
  induction indices generalizing out with
  | nil => simp
  | cons frame indices ih => simp [ih]

theorem appendMonoF32_eq (buffer : AudioBufferRef α) (out : List α) :
    appendMonoF32 buffer out = out ++ mono buffer := by
  cases buffer <;> simp [appendMonoF32, mono, pushFrames_eq]

theorem length_mono {buffer : AudioBufferRef α} (common : buffer.Common) :
    (mono buffer).length = buffer.frames := by
  cases buffer with
  | other => cases common
  | _ => simp [mono, appendMonoF32, pushFrames_eq, AudioBufferRef.frames]

theorem length_flatten_mono {buffers : List (AudioBufferRef α)}
    (common : ∀ buffer ∈ buffers, buffer.Common) :
    (buffers.map mono).flatten.length = (buffers.map AudioBufferRef.frames).sum := by
  rw [List.length_flatten, List.map_map]
  exact congrArg List.sum (List.map_congr_left (fun buffer mem => length_mono (common buffer mem)))

/-- The loop fills the buffer by packets, and counts every frame. -/
theorem decodeLoop_eq {trackId maxSamples : Nat} {packets : List (NextPacket α)}
    {s r : List α × Nat} (is : decodeLoop trackId maxSamples packets s = .ok r) :
    r = (Buffers.fill maxSamples ((buffersOf trackId packets).map mono) s.1,
      s.2 + ((buffersOf trackId packets).map AudioBufferRef.frames).sum) := by
  fun_induction decodeLoop trackId maxSamples packets s with
  | case1 s =>
    cases is
    rfl
  | case2 => cases is
  | case3 id decoded rest s other ih =>
    rw [ih is]
    cases decoded <;> simp [buffersOf, other]
  | case4 => cases is
  | case5 id rest s same buffer ih =>
    rw [ih is]
    obtain rfl : id = trackId := by simpa using same
    simp [buffersOf, Buffers.fill, appendMonoF32_eq, Nat.add_assoc]

theorem decode_ok {source : Probed α μ} {hintExt : Option String} {maxSamples : Nat}
    {audio : DecodedAudio α φ μ} (is : decode (.ok source) hintExt maxSamples = .ok audio) :
    audio.samples = Buffers.fill maxSamples (source.buffers.map mono) [] ∧
      audio.durationSecs = ((source.buffers.map AudioBufferRef.frames).sum : φ) /
        (audio.sampleRate.toNat : φ) := by
  rw [decode] at is
  split at is
  · cases is
  rename_i trackId params track
  split at is
  · cases is
  rename_i rate known
  split at is
  · cases is
  cases looped : decodeLoop trackId maxSamples source.packets ([], 0) with
  | error e =>
    rw [looped] at is
    cases is
  | ok r =>
    rw [looped, decodeLoop_eq looped] at is
    cases is
    rw [Probed.buffers, track]
    simp

/-- The first frames up to the cap, and the length of all. -/
structure Exact (source : Probed α μ) (maxSamples : Nat) (audio : DecodedAudio α φ μ) : Prop where
  samples : audio.samples = source.pcm.take maxSamples
  duration : audio.durationSecs = (source.pcm.length : φ) / (audio.sampleRate.toNat : φ)

/-- Where no cap falls inside a packet, how the frames are cut into packets is of no matter. -/
theorem decode_exact_iff {source : Probed α μ} (common : ∀ buffer ∈ source.buffers, buffer.Common)
    {hintExt : Option String} {maxSamples : Nat} {audio : DecodedAudio α φ μ}
    (is : decode (.ok source) hintExt maxSamples = .ok audio) :
    Exact source maxSamples audio ↔
      (source.buffers.map AudioBufferRef.frames).sum ≤ maxSamples ∨
        ∃ pre post, source.buffers = pre ++ post ∧
          (pre.map AudioBufferRef.frames).sum = maxSamples := by
  obtain ⟨samples, duration⟩ := decode_ok is
  have counted : ∀ buffers : List (AudioBufferRef α), (∀ b ∈ buffers, b ∈ source.buffers) →
      (buffers.map mono).flatten.length = (buffers.map AudioBufferRef.frames).sum :=
    fun buffers sub => length_flatten_mono (fun b mem => common b (sub b mem))
  have whole : source.pcm.length = (source.buffers.map AudioBufferRef.frames).sum :=
    counted source.buffers (fun b mem => mem)
  have room : ([] : List α).length ≤ maxSamples := Nat.zero_le maxSamples
  have cut : Buffers.fill maxSamples (source.buffers.map mono) [] = source.pcm.take maxSamples ↔
      source.pcm.length ≤ maxSamples ∨ ∃ pre post, source.buffers.map mono = pre ++ post ∧
        pre.flatten.length = maxSamples := Buffers.fill_eq_take_iff room
  have ends : (∃ pre post, source.buffers.map mono = pre ++ post ∧
      pre.flatten.length = maxSamples) ↔ ∃ pre post, source.buffers = pre ++ post ∧
        (pre.map AudioBufferRef.frames).sum = maxSamples := by
    constructor
    · rintro ⟨pre, post, split, at_⟩
      obtain ⟨first, rest, split', rfl, rfl⟩ := List.map_eq_append_iff.mp split
      refine ⟨first, rest, split', ?_⟩
      rw [← counted first (fun b mem => split' ▸ List.mem_append_left rest mem)]
      exact at_
    · rintro ⟨pre, post, split, at_⟩
      refine ⟨pre.map mono, post.map mono, by rw [split, List.map_append], ?_⟩
      rw [counted pre (fun b mem => split ▸ List.mem_append_left post mem)]
      exact at_
  rw [whole, ends, ← samples] at cut
  constructor
  · exact fun right => cut.mp right.samples
  · exact fun condition => ⟨cut.mpr condition, by rw [duration, whole]⟩

end

/-- A source of one channel, with packets of the given lengths and these samples in each. -/
def oneChannel (sample : Nat → Int16) (lengths : List Nat) : Probed ℚ Unit where
  defaultTrack := some (0, ⟨some 44100, some 16, none⟩)
  codec := .ok ()
  packets := lengths.map (fun n => .packet 0 (.ok (.s16 ⟨1, n, fun _ => sample⟩)))
  metadata := ()

def silence (lengths : List Nat) : Probed ℚ Unit := oneChannel (fun _ => 0) lengths

theorem oneChannel_common (sample : Nat → Int16) (lengths : List Nat) :
    ∀ b ∈ (oneChannel sample lengths).buffers, b.Common := by
  intro b mem
  simp only [Probed.buffers, oneChannel, buffersOf, List.filterMap_map, List.mem_filterMap,
    Function.comp_apply] at mem
  obtain ⟨n, -, is⟩ := mem
  obtain rfl := Option.some.inj is
  trivial

/-- A rising ramp in two packets, with the cap between them. -/
theorem decode_exact_two_packets : ∃ audio : DecodedAudio ℚ ℚ Unit,
    decode (.ok (oneChannel (fun i => Int16.ofNat (1024 * (i + 1))) [2, 3])) none 2 = .ok audio ∧
      audio.samples = [1024 / 32768, 2048 / 32768] ∧
      Exact (oneChannel (fun i => Int16.ofNat (1024 * (i + 1))) [2, 3]) 2 audio := by
  refine ⟨_, rfl, by decide +kernel, ?_⟩
  exact (decode_exact_iff (oneChannel_common _ [2, 3]) rfl).mpr
    (.inr ⟨[.s16 ⟨1, 2, _⟩], [.s16 ⟨1, 3, _⟩], rfl, rfl⟩)

/-- The same frames in one packet and in two, with a cap of two frames. -/
theorem cap_inside_packet : ∃ one two : DecodedAudio ℚ ℚ Unit,
    (silence [3]).pcm = (silence [2, 1]).pcm ∧
    decode (.ok (silence [3])) none 2 = .ok one ∧ one.samples.length = 3 ∧
    decode (.ok (silence [2, 1])) none 2 = .ok two ∧ two.samples.length = 2 ∧
    ¬ Exact (silence [3]) 2 one := by
  refine ⟨_, _, rfl, rfl, rfl, rfl, rfl, ?_⟩
  intro right
  have short := congrArg List.length right.samples
  rw [List.length_take] at short
  exact absurd short (by decide)

end BVault.Analysis
