import Mathlib.Algebra.BigOperators.Group.List.Basic
import Mathlib.Algebra.GroupWithZero.Nat
import SippyB2bua.Rtp.Params

/-!
# Framing of the audio that goes out

Chunks of audio wait in a queue. A tick encodes chunks until there is a packet's worth of bytes, and
sends one packet. Each chunk is padded so that its bytes fill whole packets, but the padding is
reckoned from the number of frames before the chunk is resampled.
-/

namespace SippyB2bua.Rtp
open Lib (run)

inductive FramingExn
  | assertionError | zeroDivisionError
  deriving DecidableEq, Repr

/-- An instance of one of the codecs, without the state of its encoder. -/
structure GenCodec where
  codec : Codec
  srate : ℕ
  outSrate : ℕ
  deriving DecidableEq

namespace GenCodec

def init (codec : Codec) : GenCodec := ⟨codec, 8000, 8000⟩

def e2dFrames (c : GenCodec) (enframes : ℤ) : Except FramingExn ℤ :=
  match c.codec with
  | .g711 =>
    if c.outSrate % c.srate ≠ 0 then .error .assertionError
    else .ok (enframes * c.outSrate / c.srate)
  | .g722 => .ok (enframes * (if c.srate = 8000 then 1 else 2) * c.outSrate / c.srate)

def d2eFrames (c : GenCodec) (dnframes : ℤ) : Except FramingExn ℤ :=
  match c.codec with
  | .g711 =>
    if c.outSrate % c.srate ≠ 0 then .error .assertionError
    else .ok (dnframes * c.srate / c.outSrate)
  | .g722 => .ok (dnframes * c.srate / ((if c.srate = 8000 then 1 else 2) * c.outSrate))

theorem e2dFrames_init (codec : Codec) (n : ℤ) : (init codec).e2dFrames n = .ok n := by
  cases codec <;> simp [init, e2dFrames]

theorem d2eFrames_init (codec : Codec) (n : ℤ) : (init codec).d2eFrames n = .ok n := by
  cases codec <;> simp [init, d2eFrames]

end GenCodec

structure AudioChunk where
  audio : List Int16
  samplerate : ℕ
  deriving DecidableEq

def AudioChunk.nframes (c : AudioChunk) : ℕ := c.audio.length

/-- What the worker takes from other libraries. An encoder has a state. -/
structure Audio (σ : Type*) where
  resampleLinear : List Int16 → ℕ → ℕ → List Int16
  encode : σ → List Int16 → List UInt8 × σ

/-- An encoded chunk, in bytes that are still to go out and in frames as they came. -/
structure Pending where
  remBytes : ℕ
  nframes : ℕ
  deriving DecidableEq, Repr

inductive Synth
  | nextPkt (pload : List UInt8)
  | skip
  deriving DecidableEq

/-- What a worker is made with. -/
structure OutputConf where
  codec : GenCodec
  samplerateOut : ℕ
  outFt : ℤ
  periodNs : ℤ
  outPsize : ℤ
  deriving DecidableEq

/-- `RTPOutputWorker`. -/
structure OutputWorker (σ : Type*) extends OutputConf where
  encoder : σ
  dataQueue : List AudioChunk
  encBuffer : List UInt8
  pendingChunks : List Pending
  framesRcvd : ℕ
  framesPrcsd : ℕ
  streamStarted : Bool
  hasEnded : Bool
  synth : List Synth

/-- `b[:i]` and `b[i:]`. -/
def sliceTo (b : List UInt8) (i : ℤ) : List UInt8 :=
  if 0 ≤ i then b.take i.toNat else b.take (b.length - i.natAbs)

def sliceFrom (b : List UInt8) (i : ℤ) : List UInt8 :=
  if 0 ≤ i then b.drop i.toNat else b.drop (b.length - i.natAbs)

theorem sliceTo_nil (i : ℤ) : sliceTo [] i = [] := by
  unfold sliceTo
  split <;> exact List.take_nil

/-- The conversions of `__init__`. -/
def OutputConf.init (codec : Codec) (outFt : ℤ) : Except FramingExn OutputConf := do
  let codec := GenCodec.init codec
  let outFsize := codec.srate * outFt / 1000
  return {
    codec, samplerateOut := codec.srate, outFt, periodNs := outFt * 1000000
    outPsize := ← codec.d2eFrames outFsize }

/-- The audio of a chunk as it is encoded: resampled and padded with silence. -/
def OutputConf.prepare {σ : Type*} (conf : OutputConf) (lib : Audio σ) (chunk : AudioChunk) :
    Except FramingExn (List Int16) := do
  let audio :=
    if chunk.samplerate ≠ conf.samplerateOut then
      lib.resampleLinear chunk.audio chunk.samplerate conf.samplerateOut
    else chunk.audio
  let chunkEbytes ← conf.codec.d2eFrames chunk.nframes
  let padNbytes := -chunkEbytes % conf.outPsize
  if padNbytes ≠ 0 then
    let padNframes ← conf.codec.e2dFrames padNbytes
    if 0 < padNframes then return audio ++ List.replicate padNframes.toNat 0
    else throw .assertionError
  else return audio

/-- `_mark_processed_bytes`, with the frames of the chunks that are done. -/
def markProcessedBytes : ℕ → List Pending → List Pending × ℕ
  | _, [] => ([], 0)
  | nbytes, p :: ps =>
    if nbytes = 0 then (p :: ps, 0)
    else if nbytes < p.remBytes then ({ p with remBytes := p.remBytes - nbytes } :: ps, 0)
    else
      let r := markProcessedBytes (nbytes - p.remBytes) ps
      (r.1, p.nframes + r.2)

namespace OutputWorker
variable {σ : Type*}

def init (conf : OutputConf) (encoder : σ) : OutputWorker σ where
  toOutputConf := conf
  encoder := encoder
  dataQueue := []
  encBuffer := []
  pendingChunks := []
  framesRcvd := 0
  framesPrcsd := 0
  streamStarted := false
  hasEnded := false
  synth := []

def soundout (w : OutputWorker σ) (chunk : AudioChunk) : OutputWorker σ × Except FramingExn (ℕ × Bool) :=
  if chunk.audio.length = 0 then (w, .error .assertionError)
  else
    let w := { w with framesRcvd := w.framesRcvd + chunk.nframes, dataQueue := w.dataQueue ++ [chunk] }
    (w, .ok (w.dataQueue.length, false))

/-- The bytes of a chunk join the buffer. -/
def append (w : OutputWorker σ) (audioEnc : List UInt8) (chunkNframes : ℕ) : OutputWorker σ :=
  if 0 < audioEnc.length then
    { w with
      encBuffer := w.encBuffer ++ audioEnc
      pendingChunks := w.pendingChunks ++ [⟨audioEnc.length, chunkNframes⟩]
      streamStarted := true }
  else { w with framesPrcsd := w.framesPrcsd + chunkNframes, streamStarted := true }

def fill (lib : Audio σ) : OutputWorker σ → List AudioChunk → OutputWorker σ × Option FramingExn
  | w, [] => ({ w with dataQueue := [] }, none)
  | w, chunk :: chunks =>
    if (w.encBuffer.length : ℤ) < w.outPsize then
      match w.prepare lib chunk with
      | .error e => ({ w with dataQueue := chunks }, some e)
      | .ok audio =>
        let r := lib.encode w.encoder audio
        fill lib ({ w with encoder := r.2 }.append r.1 chunk.nframes) chunks
    else ({ w with dataQueue := chunk :: chunks }, none)

def send (w : OutputWorker σ) : OutputWorker σ :=
  let r := markProcessedBytes w.outPsize.toNat w.pendingChunks
  { w with
    encBuffer := sliceFrom w.encBuffer w.outPsize
    pendingChunks := r.1
    framesPrcsd := w.framesPrcsd + r.2
    synth := w.synth ++ [.nextPkt (sliceTo w.encBuffer w.outPsize)] }

/-- The end of `_proc_in`: a packet, or a gap in a stream that has started. -/
def emit (w : OutputWorker σ) (deadlineNs : ℕ) : OutputWorker σ × Except FramingExn (Option ℤ) :=
  if w.outPsize ≤ w.encBuffer.length then
    if w.outPsize = 0 then (w, .error .zeroDivisionError)
    else if (w.encBuffer.length : ℤ) % w.outPsize ≠ 0 then (w, .error .assertionError)
    else (w.send, .ok (some (deadlineNs + w.periodNs)))
  else
    let w := if w.streamStarted then { w with synth := w.synth ++ [.skip] } else w
    (w, .ok (some (deadlineNs + w.periodNs)))

def procIn (w : OutputWorker σ) (lib : Audio σ) (nowNs deadlineNs : ℕ) :
    OutputWorker σ × Except FramingExn (Option ℤ) :=
  if w.hasEnded then (w, .ok none)
  else if deadlineNs = 0 ∧ nowNs = 0 then (w, .error .assertionError)
  else
    match w.fill lib w.dataQueue with
    | (w, some e) => (w, .error e)
    | (w, none) => w.emit (if deadlineNs = 0 then nowNs else deadlineNs)

inductive Label
  | soundout (chunk : AudioChunk)
  | procIn (nowNs deadlineNs : ℕ)
  | «end»

def step (lib : Audio σ) (w : OutputWorker σ) : Label → OutputWorker σ
  | .soundout chunk => (w.soundout chunk).1
  | .procIn nowNs deadlineNs => (w.procIn lib nowNs deadlineNs).1
  | .end => { w with hasEnded := true }

def packets (w : OutputWorker σ) : List (List UInt8) := w.synth.filterMap fun
  | .nextPkt pload => some pload
  | .skip => none

end OutputWorker

section Bytes
variable {σ : Type*} (lib : Audio σ) (conf : OutputConf)

def AudioChunk.resampled (c : AudioChunk) (rate : ℕ) : List Int16 :=
  if c.samplerate ≠ rate then lib.resampleLinear c.audio c.samplerate rate else c.audio

def AudioChunk.padded (c : AudioChunk) : List Int16 :=
  c.resampled lib conf.samplerateOut ++ List.replicate (-(c.nframes : ℤ) % conf.outPsize).toNat 0

/-- The bytes of chunks that are encoded one after another, and the encoder after that. -/
def encodeAll : σ → List AudioChunk → List UInt8 × σ
  | s, [] => ([], s)
  | s, c :: cs =>
    let r := lib.encode s (c.padded lib conf)
    let rest := encodeAll r.2 cs
    (r.1 ++ rest.1, rest.2)

/-- The padding fills whole packets: resampling does not change the number of frames by a part of
a packet. -/
def AudioChunk.Whole (c : AudioChunk) : Prop :=
  ((c.resampled lib conf.samplerateOut).length : ℤ) % conf.outPsize = c.nframes % conf.outPsize

def accepted (ls : List OutputWorker.Label) : List AudioChunk := ls.filterMap fun
  | .soundout c => if c.audio.length = 0 then none else some c
  | _ => none

/-- The framing of the chunks that were put in the queue. -/
structure Framing (s : σ) (chunks : List AudioChunk) (w : OutputWorker σ) : Prop where
  whole : (w.encBuffer.length : ℤ) % conf.outPsize = 0
  packets : ∀ p ∈ w.packets, (p.length : ℤ) = conf.outPsize
  order : w.packets.flatten ++ w.encBuffer ++ (encodeAll lib conf w.encoder w.dataQueue).1 =
    (encodeAll lib conf s chunks).1
  pending : (w.pendingChunks.map (·.remBytes)).sum = w.encBuffer.length
  frames : w.framesPrcsd ≤ w.framesRcvd
  drained : w.dataQueue = [] → w.encBuffer = [] → w.framesPrcsd = w.framesRcvd
  /-- No tick raises. -/
  asserts : ∀ nowNs deadlineNs, (deadlineNs = 0 → 0 < nowNs) →
    ∃ r, (w.procIn lib nowNs deadlineNs).2 = .ok r
  /-- Each tick sends a packet while there are bytes. -/
  sends : ∀ nowNs deadlineNs, (deadlineNs = 0 → 0 < nowNs) → w.hasEnded = false →
    w.encBuffer ++ (encodeAll lib conf w.encoder w.dataQueue).1 ≠ [] →
      ∃ p, (w.procIn lib nowNs deadlineNs).1.packets = w.packets ++ [p]

theorem encodeAll_append (s : σ) (cs ds : List AudioChunk) :
    encodeAll lib conf s (cs ++ ds) =
      ((encodeAll lib conf s cs).1 ++ (encodeAll lib conf (encodeAll lib conf s cs).2 ds).1,
        (encodeAll lib conf (encodeAll lib conf s cs).2 ds).2) := by
  induction cs generalizing s with
  | nil => rfl
  | cons c cs ih => simp only [List.cons_append, encodeAll, ih, List.append_assoc]

end Bytes

theorem OutputConf.init_eq {codec : Codec} {outFt : ℤ} {conf : OutputConf}
    (h : OutputConf.init codec outFt = .ok conf) :
    conf.codec = GenCodec.init codec ∧ conf.outPsize = 8 * outFt := by
  have hsize : (GenCodec.init codec).srate * outFt / 1000 = 8 * outFt := by
    change 8000 * outFt / 1000 = 8 * outFt
    omega
  simp only [OutputConf.init, hsize, GenCodec.d2eFrames_init] at h
  cases h
  exact ⟨rfl, rfl⟩

theorem OutputConf.prepare_eq {σ : Type*} {lib : Audio σ} {conf : OutputConf} {codec : Codec}
    (hcodec : conf.codec = GenCodec.init codec) (hpos : 0 < conf.outPsize) (c : AudioChunk) :
    conf.prepare lib c = .ok (c.padded lib conf) := by
  have hnonneg := Int.emod_nonneg (-(c.nframes : ℤ)) (by omega : conf.outPsize ≠ 0)
  simp only [OutputConf.prepare, hcodec, GenCodec.d2eFrames_init, GenCodec.e2dFrames_init]
  by_cases hpad : -(c.nframes : ℤ) % conf.outPsize = 0
  · simp [AudioChunk.padded, AudioChunk.resampled, Bind.bind, Except.bind, Pure.pure, Except.pure, hpad]
  · have hpad' : 0 < -(c.nframes : ℤ) % conf.outPsize := by omega
    simp [AudioChunk.padded, AudioChunk.resampled, Bind.bind, Except.bind, Pure.pure, Except.pure, hpad, hpad']

theorem markProcessedBytes_spec {n : ℕ} {ps : List Pending} (hpos : ∀ p ∈ ps, 0 < p.remBytes)
    (hn : n ≤ (ps.map (·.remBytes)).sum) :
    ((markProcessedBytes n ps).1.map (·.remBytes)).sum + n = (ps.map (·.remBytes)).sum ∧
      (∀ p ∈ (markProcessedBytes n ps).1, 0 < p.remBytes) ∧
        ((markProcessedBytes n ps).1.map (·.nframes)).sum + (markProcessedBytes n ps).2 =
          (ps.map (·.nframes)).sum := by
  induction ps generalizing n with
  | nil =>
    have hzero : n = 0 := Nat.le_zero.mp hn
    subst hzero
    exact ⟨rfl, hpos, rfl⟩
  | cons p ps ih =>
    obtain ⟨hp, hps⟩ := List.forall_mem_cons.mp hpos
    rw [List.map_cons, List.sum_cons] at hn
    unfold markProcessedBytes
    split
    · rename_i hzero
      subst hzero
      exact ⟨rfl, hpos, rfl⟩
    · split
      · refine ⟨?_, List.forall_mem_cons.mpr ⟨?_, hps⟩, rfl⟩
        · simp only [List.map_cons, List.sum_cons]
          omega
        · exact Nat.sub_pos_of_lt ‹_›
      · obtain ⟨hsum, hleft, hframes⟩ := ih hps (by omega : n - p.remBytes ≤ _)
        refine ⟨?_, hleft, ?_⟩
        · simp only [List.map_cons, List.sum_cons]
          omega
        · simp only [List.map_cons, List.sum_cons]
          omega

section Length
variable {σ : Type*} {lib : Audio σ} {conf : OutputConf} {c : AudioChunk}

theorem length_padded (hpos : 0 < conf.outPsize) : ((c.padded lib conf).length : ℤ) =
    (c.resampled lib conf.samplerateOut).length + -(c.nframes : ℤ) % conf.outPsize := by
  have hnonneg := Int.emod_nonneg (-(c.nframes : ℤ)) (by omega : conf.outPsize ≠ 0)
  rw [AudioChunk.padded, List.length_append, List.length_replicate]
  omega

theorem whole_iff (hpos : 0 < conf.outPsize) :
    c.Whole lib conf ↔ conf.outPsize ∣ ((c.padded lib conf).length : ℤ) := by
  rw [length_padded hpos, AudioChunk.Whole, Int.emod_eq_emod_iff_emod_sub_eq_zero,
    Int.dvd_iff_emod_eq_zero, Int.add_emod_emod, Int.sub_eq_add_neg]

end Length

namespace OutputWorker

/-- What the books of a worker say of the chunks that it was given. -/
structure Inv {σ : Type*} (lib : Audio σ) (conf : OutputConf) (s : σ) (chunks : List AudioChunk)
    (w : OutputWorker σ) : Prop where
  same : w.toOutputConf = conf
  whole : conf.outPsize ∣ w.encBuffer.length
  packets : ∀ p ∈ w.packets, (p.length : ℤ) = conf.outPsize
  order : w.packets.flatten ++ w.encBuffer ++ (encodeAll lib conf w.encoder w.dataQueue).1 =
    (encodeAll lib conf s chunks).1
  encoder : (encodeAll lib conf w.encoder w.dataQueue).2 = (encodeAll lib conf s chunks).2
  pending : (w.pendingChunks.map (·.remBytes)).sum = w.encBuffer.length
  positive : ∀ p ∈ w.pendingChunks, 0 < p.remBytes
  frames : w.framesRcvd = w.framesPrcsd + (w.pendingChunks.map (·.nframes)).sum +
    (w.dataQueue.map AudioChunk.nframes).sum
  queue : ∀ c ∈ w.dataQueue, c.Whole lib conf

/-- The library encodes as many frames as the codec says. -/
structure Setting {σ : Type*} (lib : Audio σ) (codec : Codec) (conf : OutputConf) : Prop where
  codec : conf.codec = GenCodec.init codec
  positive : 0 < conf.outPsize
  encode : ∀ s pcm, (lib.encode s pcm).1.length = pcm.length

variable {σ : Type*} {lib : Audio σ} {codec : Codec} {conf : OutputConf} {s : σ}
variable {chunks : List AudioChunk} {w : OutputWorker σ}

theorem inv_init (lib : Audio σ) (conf : OutputConf) (s : σ) : Inv lib conf s [] (init conf s) := by
  refine ⟨rfl, Int.dvd_zero _, ?_, rfl, rfl, rfl, ?_, rfl, ?_⟩
  · exact fun _ h => nomatch h
  · exact fun _ h => nomatch h
  · exact fun _ h => nomatch h

theorem Inv.soundout (h : Inv lib conf s chunks w) {c : AudioChunk} (hc : c.Whole lib conf)
    (hlen : c.audio.length ≠ 0) : Inv lib conf s (chunks ++ [c]) (w.soundout c).1 := by
  rw [OutputWorker.soundout, if_neg hlen]
  refine ⟨h.same, h.whole, h.packets, ?_, ?_, h.pending, h.positive, ?_, ?_⟩
  · dsimp only
    rw [encodeAll_append, encodeAll_append, ← h.order, h.encoder, ← List.append_assoc]
    rfl
  · dsimp only
    rw [encodeAll_append, encodeAll_append, h.encoder]
  · dsimp only
    rw [List.map_append, List.sum_append, h.frames, List.map_singleton, List.sum_singleton]
    omega
  · exact List.forall_mem_append.mpr ⟨h.queue, List.forall_mem_singleton.mpr hc⟩

theorem Inv.append (hset : Setting lib codec conf) {c : AudioChunk} {cs : List AudioChunk}
    (h : Inv lib conf s chunks { w with dataQueue := c :: cs }) :
    Inv lib conf s chunks
      { ({ w with encoder := (lib.encode w.encoder (c.padded lib conf)).2 } : OutputWorker σ).append
          (lib.encode w.encoder (c.padded lib conf)).1 c.nframes with dataQueue := cs } := by
  obtain ⟨hc, hcs⟩ := List.forall_mem_cons.mp h.queue
  have henc := hset.encode w.encoder (c.padded lib conf)
  have hdvd := (whole_iff hset.positive).mp hc
  have horder := h.order
  have hframes := h.frames
  generalize hr : lib.encode w.encoder (c.padded lib conf) = r at henc
  have hencoder := h.encoder
  simp only [encodeAll, hr] at horder hencoder
  simp only [List.map_cons, List.sum_cons] at hframes
  unfold OutputWorker.append
  split
  · refine ⟨h.same, ?_, h.packets, ?_, hencoder, ?_, ?_, ?_, hcs⟩
    · dsimp only
      rw [List.length_append, Int.natCast_add, henc]
      exact Int.dvd_add h.whole hdvd
    · rw [← horder]
      simp only [List.append_assoc]
      rfl
    · dsimp only
      rw [List.map_append, List.sum_append, List.length_append, h.pending]
      rfl
    · exact List.forall_mem_append.mpr ⟨h.positive, List.forall_mem_singleton.mpr ‹_›⟩
    · dsimp only
      rw [hframes, List.map_append, List.sum_append, List.map_singleton, List.sum_singleton]
      dsimp only
      omega
  · rename_i hempty
    have hnil : r.1 = [] := List.length_eq_zero_iff.mp (Nat.eq_zero_of_not_pos hempty)
    refine ⟨h.same, h.whole, h.packets, ?_, hencoder, h.pending, h.positive, ?_, hcs⟩
    · rw [← horder, hnil]
      rfl
    · dsimp only
      rw [hframes]
      omega

theorem append_same (w : OutputWorker σ) (audioEnc : List UInt8) (n : ℕ) :
    (w.append audioEnc n).hasEnded = w.hasEnded ∧ (w.append audioEnc n).synth = w.synth := by
  unfold OutputWorker.append
  split <;> exact ⟨rfl, rfl⟩

theorem fill_spec (hset : Setting lib codec conf) {cs : List AudioChunk}
    (h : Inv lib conf s chunks { w with dataQueue := cs }) :
    ∃ w', w.fill lib cs = (w', none) ∧ Inv lib conf s chunks w' ∧ w'.hasEnded = w.hasEnded ∧
      w'.synth = w.synth ∧ (conf.outPsize ≤ w'.encBuffer.length ∨ w'.dataQueue = []) := by
  induction cs generalizing w with
  | nil => exact ⟨_, rfl, h, rfl, rfl, .inr rfl⟩
  | cons c cs ih =>
    have hsame : w.toOutputConf = conf := h.same
    have hprepare : w.prepare lib c = .ok (c.padded lib conf) := by
      rw [hsame]
      exact OutputConf.prepare_eq hset.codec hset.positive c
    unfold fill
    split
    · rw [hprepare]
      obtain ⟨w', hfill, hinv, hended, hsynth, hdone⟩ := ih (h.append hset)
      obtain ⟨hended', hsynth'⟩ := append_same
        { w with encoder := (lib.encode w.encoder (c.padded lib conf)).2 }
        (lib.encode w.encoder (c.padded lib conf)).1 c.nframes
      exact ⟨w', hfill, hinv, hended.trans hended', hsynth.trans hsynth', hdone⟩
    · rename_i hfull
      rw [hsame] at hfull
      exact ⟨_, rfl, h, rfl, rfl, .inl (Int.not_lt.mp hfull)⟩

theorem packets_send (w : OutputWorker σ) :
    w.send.packets = w.packets ++ [sliceTo w.encBuffer w.outPsize] := List.filterMap_append

theorem Inv.send (hset : Setting lib codec conf) (h : Inv lib conf s chunks w)
    (hlen : conf.outPsize ≤ w.encBuffer.length) : Inv lib conf s chunks w.send := by
  have hpos := hset.positive
  have hto : sliceTo w.encBuffer w.outPsize = w.encBuffer.take conf.outPsize.toNat := by
    rw [h.same, sliceTo, if_pos (Int.le_of_lt hpos)]
  have hfrom : sliceFrom w.encBuffer w.outPsize = w.encBuffer.drop conf.outPsize.toNat := by
    rw [h.same, sliceFrom, if_pos (Int.le_of_lt hpos)]
  have hle : conf.outPsize.toNat ≤ (w.pendingChunks.map (·.remBytes)).sum := by
    rw [h.pending]
    omega
  obtain ⟨hsum, hleft, hframes⟩ := markProcessedBytes_spec h.positive hle
  have hpackets := w.packets_send
  rw [hto] at hpackets
  have hbuffer : w.send.encBuffer = w.encBuffer.drop conf.outPsize.toNat := hfrom
  have hpending : w.send.pendingChunks = (markProcessedBytes conf.outPsize.toNat w.pendingChunks).1 := by
    rw [OutputWorker.send, h.same]
  have hprcsd : w.send.framesPrcsd = w.framesPrcsd + (markProcessedBytes conf.outPsize.toNat w.pendingChunks).2 := by
    rw [OutputWorker.send, h.same]
  have hrcvd : w.send.framesRcvd = w.framesRcvd := rfl
  refine ⟨h.same, ?_, ?_, ?_, h.encoder, ?_, ?_, ?_, h.queue⟩
  · have hdrop : ((w.encBuffer.drop conf.outPsize.toNat).length : ℤ) = w.encBuffer.length - conf.outPsize := by
      rw [List.length_drop]
      omega
    rw [hbuffer, hdrop]
    exact Int.dvd_sub h.whole (Int.dvd_refl _)
  · rw [hpackets]
    refine List.forall_mem_append.mpr ⟨h.packets, List.forall_mem_singleton.mpr ?_⟩
    rw [List.length_take]
    omega
  · rw [hpackets, hbuffer, List.flatten_append, List.flatten_singleton, List.append_assoc w.packets.flatten,
      List.take_append_drop]
    exact h.order
  · rw [hpending, hbuffer, List.length_drop, ← h.pending]
    omega
  · rw [hpending]
    exact hleft
  · have hqueue : w.send.dataQueue = w.dataQueue := rfl
    have hall := h.frames
    rw [hrcvd, hprcsd, hpending, hqueue]
    omega

theorem Inv.skip (h : Inv lib conf s chunks w) :
    Inv lib conf s chunks { w with synth := w.synth ++ [.skip] } := by
  have hpackets : ({ w with synth := w.synth ++ [.skip] } : OutputWorker σ).packets = w.packets := by
    simp [OutputWorker.packets]
  refine ⟨h.same, h.whole, ?_, ?_, h.encoder, h.pending, h.positive, h.frames, h.queue⟩
  · rw [hpackets]
    exact h.packets
  · rw [hpackets]
    exact h.order

theorem procIn_eq {w' : OutputWorker σ} {nowNs deadlineNs : ℕ} (hended : w.hasEnded = false)
    (hclock : deadlineNs = 0 → 0 < nowNs) (hfill : w.fill lib w.dataQueue = (w', none)) :
    w.procIn lib nowNs deadlineNs = w'.emit (if deadlineNs = 0 then nowNs else deadlineNs) := by
  have hrunning : ¬ w.hasEnded = true := by simp [hended]
  have hstarted : ¬ (deadlineNs = 0 ∧ nowNs = 0) := by omega
  rw [procIn, if_neg hrunning, if_neg hstarted, hfill]

theorem emit_gap (hlen : ¬ w.outPsize ≤ w.encBuffer.length) (deadlineNs : ℕ) : w.emit deadlineNs =
    (if w.streamStarted then { w with synth := w.synth ++ [.skip] } else w,
      .ok (some (deadlineNs + w.periodNs))) := by
  rw [emit, if_neg hlen]
  dsimp only
  split <;> rfl

/-- A tick keeps the books, does not raise, and sends a packet while there are bytes. -/
theorem Inv.procIn (hset : Setting lib codec conf) (h : Inv lib conf s chunks w) {nowNs deadlineNs : ℕ}
    (hclock : deadlineNs = 0 → 0 < nowNs) :
    Inv lib conf s chunks (w.procIn lib nowNs deadlineNs).1 ∧
      (∃ r, (w.procIn lib nowNs deadlineNs).2 = .ok r) ∧
        (w.hasEnded = false → w.encBuffer ++ (encodeAll lib conf w.encoder w.dataQueue).1 ≠ [] →
          ∃ p, (w.procIn lib nowNs deadlineNs).1.packets = w.packets ++ [p]) := by
  cases hended : w.hasEnded with
  | true =>
    rw [OutputWorker.procIn, if_pos hended]
    exact ⟨h, ⟨_, rfl⟩, fun hgoes => nomatch hgoes⟩
  | false =>
    obtain ⟨w', hfill, hinv, -, hsynth, hdone⟩ := @fill_spec _ _ _ _ _ _ w hset w.dataQueue h
    have hsame : w'.packets = w.packets := by rw [OutputWorker.packets, OutputWorker.packets, hsynth]
    have hpsize : w'.outPsize = conf.outPsize := by rw [hinv.same]
    have hpos := hset.positive
    rw [procIn_eq hended hclock hfill]
    by_cases hlen : conf.outPsize ≤ w'.encBuffer.length
    · have hzero : conf.outPsize ≠ 0 := by omega
      have hwhole : ¬ (w'.encBuffer.length : ℤ) % conf.outPsize ≠ 0 :=
        not_not_intro (Int.emod_eq_zero_of_dvd hinv.whole)
      rw [emit, hpsize, if_pos hlen, if_neg hzero, if_neg hwhole]
      refine ⟨hinv.send hset hlen, ⟨_, rfl⟩, fun _ _ => ⟨sliceTo w'.encBuffer w'.outPsize, ?_⟩⟩
      rw [packets_send, hsame]
    · have hqueue : w'.dataQueue = [] := hdone.resolve_left hlen
      have hempty : w'.encBuffer = [] := by
        have hmod := Int.emod_eq_of_lt (Int.natCast_nonneg _) (Int.not_le.mp hlen)
        rw [Int.emod_eq_zero_of_dvd hinv.whole] at hmod
        exact List.length_eq_zero_iff.mp (by omega)
      have hnone : w.encBuffer ++ (encodeAll lib conf w.encoder w.dataQueue).1 = [] := by
        have hbytes := hinv.order.trans h.order.symm
        rw [hsame, hempty, hqueue, List.append_assoc, List.append_assoc] at hbytes
        exact (List.append_cancel_left hbytes).symm
      rw [emit_gap (hpsize ▸ hlen)]
      refine ⟨?_, ⟨_, rfl⟩, fun _ hbytes => absurd hnone hbytes⟩
      dsimp only
      split
      · exact hinv.skip
      · exact hinv

theorem Inv.framing (hset : Setting lib codec conf) (h : Inv lib conf s chunks w) :
    Framing lib conf s chunks w := by
  refine ⟨Int.emod_eq_zero_of_dvd h.whole, h.packets, h.order, h.pending, ?_, ?_, ?_, ?_⟩
  · have hall := h.frames
    omega
  · intro hqueue hbuffer
    have hall := h.frames
    have hpending := h.pending
    have hpositive := h.positive
    rw [hbuffer] at hpending
    rw [hqueue] at hall
    cases hp : w.pendingChunks with
    | nil =>
      rw [hp] at hall
      exact hall.symm
    | cons p ps =>
      rw [hp] at hpending hpositive
      have hfirst := hpositive p List.mem_cons_self
      rw [List.map_cons, List.sum_cons, List.length_nil] at hpending
      omega
  · exact fun nowNs deadlineNs hclock => (h.procIn hset hclock).2.1
  · exact fun nowNs deadlineNs hclock => (h.procIn hset hclock).2.2

theorem procIn_stopped (w : OutputWorker σ) : (w.procIn lib 0 0).1 = w := by
  unfold procIn
  split <;> rfl

theorem Inv.step (hset : Setting lib codec conf) (h : Inv lib conf s chunks w) (l : Label)
    (hl : ∀ c, l = .soundout c → c.audio ≠ [] → c.Whole lib conf) :
    Inv lib conf s (chunks ++ accepted [l]) (step lib w l) := by
  cases l with
  | soundout c =>
    by_cases hlen : c.audio.length = 0
    · have hnone : accepted [Label.soundout c] = [] := List.filterMap_cons_none (if_pos hlen)
      rw [hnone, List.append_nil, OutputWorker.step, OutputWorker.soundout, if_pos hlen]
      exact h
    · have hone : accepted [Label.soundout c] = [c] := List.filterMap_cons_some (if_neg hlen)
      rw [hone]
      exact h.soundout (hl c rfl fun hnil => hlen (by rw [hnil]; rfl)) hlen
  | procIn nowNs deadlineNs =>
    rw [show accepted [Label.procIn nowNs deadlineNs] = [] from rfl, List.append_nil, OutputWorker.step]
    by_cases hclock : deadlineNs = 0 → 0 < nowNs
    · exact (h.procIn hset hclock).1
    · obtain ⟨rfl, rfl⟩ : deadlineNs = 0 ∧ nowNs = 0 := by omega
      rw [procIn_stopped]
      exact h
  | «end» =>
    rw [show accepted [Label.end] = [] from rfl, List.append_nil]
    exact ⟨h.same, h.whole, h.packets, h.order, h.encoder, h.pending, h.positive, h.frames, h.queue⟩

theorem Inv.run (hset : Setting lib codec conf) {ls : List Label} (h : Inv lib conf s chunks w)
    (hls : ∀ c, .soundout c ∈ ls → c.audio ≠ [] → c.Whole lib conf) :
    Inv lib conf s (chunks ++ accepted ls) (run (OutputWorker.step lib) w ls) := by
  induction ls generalizing w chunks with
  | nil =>
    rw [show accepted [] = [] from rfl, List.append_nil]
    exact h
  | cons l ls ih =>
    have hstep := h.step hset l fun c hc => hls c (hc ▸ List.mem_cons_self)
    have hrest := ih hstep fun c hc => hls c (List.mem_cons_of_mem l hc)
    have haccepted : accepted [l] ++ accepted ls = accepted (l :: ls) := List.filterMap_append.symm
    rw [List.append_assoc, haccepted] at hrest
    exact hrest

theorem soundout_first (conf : OutputConf) (s : σ) {c : AudioChunk} (hlen : c.audio ≠ []) :
    ((init conf s).soundout c).1 = { init conf s with framesRcvd := 0 + c.nframes, dataQueue := [c] } := by
  have hne : ¬ c.audio.length = 0 := fun hzero => hlen (List.length_eq_zero_iff.mp hzero)
  rw [OutputWorker.soundout, if_neg hne]
  rfl

theorem encBuffer_append (w : OutputWorker σ) (audioEnc : List UInt8) (n : ℕ) :
    (w.append audioEnc n).encBuffer = w.encBuffer ++ audioEnc := by
  unfold OutputWorker.append
  split
  · rfl
  · rename_i hempty
    rw [List.length_eq_zero_iff.mp (Nat.eq_zero_of_not_pos hempty), List.append_nil]

theorem conf_append (w : OutputWorker σ) (audioEnc : List UInt8) (n : ℕ) :
    (w.append audioEnc n).toOutputConf = w.toOutputConf := by
  unfold OutputWorker.append
  split <;> rfl

theorem fill_one (hset : Setting lib codec conf) (hsame : w.toOutputConf = conf) (hempty : w.encBuffer = [])
    (c : AudioChunk) : ∃ w', w.fill lib [c] = (w', none) ∧ w'.toOutputConf = conf ∧
      w'.encBuffer = (lib.encode w.encoder (c.padded lib conf)).1 := by
  have hlt : (w.encBuffer.length : ℤ) < w.outPsize := by
    rw [hempty, hsame]
    exact hset.positive
  have hprepare : w.prepare lib c = .ok (c.padded lib conf) := by
    rw [hsame]
    exact OutputConf.prepare_eq hset.codec hset.positive c
  let r := lib.encode w.encoder (c.padded lib conf)
  refine ⟨{ ({ w with encoder := r.2 } : OutputWorker σ).append r.1 c.nframes with dataQueue := [] }, ?_, ?_, ?_⟩
  · rw [fill, if_pos hlt, hprepare]
    rfl
  · exact (conf_append _ _ _).trans hsame
  · have hbuffer := encBuffer_append { w with encoder := r.2 } r.1 c.nframes
    dsimp only at hbuffer ⊢
    rw [hbuffer, hempty, List.nil_append]

theorem whole_of_first (hset : Setting lib codec conf) {c : AudioChunk} (hsame : w.toOutputConf = conf)
    (hempty : w.encBuffer = []) (hqueue : w.dataQueue = [c]) (hended : w.hasEnded = false)
    (hasserts : ∃ r, (w.procIn lib 1 0).2 = .ok r)
    (hwhole : ((w.procIn lib 1 0).1.encBuffer.length : ℤ) % conf.outPsize = 0) : c.Whole lib conf := by
  obtain ⟨w', hfill, hconf, hbuffer⟩ := fill_one hset hsame hempty c
  rw [← hqueue] at hfill
  rw [procIn_eq hended (fun _ => Nat.one_pos) hfill] at hasserts hwhole
  rw [whole_iff hset.positive, ← hset.encode w.encoder, Int.dvd_iff_emod_eq_zero, ← hbuffer]
  by_cases hfull : w'.outPsize ≤ w'.encBuffer.length
  · have hpos := hset.positive
    have hzero : w'.outPsize ≠ 0 := by
      rw [hconf]
      omega
    by_contra hrest
    have hraises : (w'.encBuffer.length : ℤ) % w'.outPsize ≠ 0 := by
      rw [hconf]
      exact hrest
    rw [emit, if_pos hfull, if_neg hzero, if_pos hraises] at hasserts
    obtain ⟨r, hr⟩ := hasserts
    exact nomatch hr
  · rw [emit_gap hfull] at hwhole
    dsimp only at hwhole
    split at hwhole
    · exact hwhole
    · exact hwhole

theorem positive_of_first (hasserts : ∃ r, ((init conf s).procIn lib 1 0).2 = .ok r)
    (hpackets : ∀ p ∈ ((init conf s).procIn lib 1 0).1.packets, (p.length : ℤ) = conf.outPsize) :
    0 < conf.outPsize := by
  have hfill : (init conf s).fill lib (init conf s).dataQueue = (init conf s, none) := rfl
  rw [procIn_eq rfl (fun _ => Nat.one_pos) hfill] at hasserts hpackets
  by_contra hneg
  have hfull : (init conf s).outPsize ≤ (init conf s).encBuffer.length := Int.not_lt.mp hneg
  by_cases hzero : (init conf s).outPsize = 0
  · rw [emit, if_pos hfull, if_pos hzero] at hasserts
    obtain ⟨r, hr⟩ := hasserts
    exact nomatch hr
  · have hwhole : ¬ ((init conf s).encBuffer.length : ℤ) % (init conf s).outPsize ≠ 0 :=
      not_not_intro (Int.zero_emod _)
    rw [emit, if_pos hfull, if_neg hzero, if_neg hwhole] at hpackets
    dsimp only at hpackets
    rw [packets_send] at hpackets
    have hsize := hpackets _ (List.mem_append_right _ List.mem_cons_self)
    have hnil : sliceTo (init conf s).encBuffer (init conf s).outPsize = [] := sliceTo_nil _
    rw [hnil] at hsize
    exact hzero hsize.symm

/-- Every run whose chunks are in `S` frames them, exactly if there is a positive packet time and
resampling changes none of these chunks by a part of a packet. -/
theorem framing_iff {codec : Codec} {outFt : ℤ} {conf : OutputConf} {lib : Audio σ}
    (hconf : OutputConf.init codec outFt = .ok conf)
    (hencode : ∀ s pcm, conf.codec.d2eFrames pcm.length = .ok (lib.encode s pcm).1.length)
    (s : σ) (S : Set AudioChunk) :
    (∀ ls, (∀ c, .soundout c ∈ ls → c ∈ S) →
        Framing lib conf s (accepted ls) (run (step lib) (init conf s) ls)) ↔
      0 < outFt ∧ ∀ c ∈ S, c.audio ≠ [] → c.Whole lib conf := by
  obtain ⟨hcodec, hpsize⟩ := OutputConf.init_eq hconf
  have hlength : ∀ s pcm, (lib.encode s pcm).1.length = pcm.length := by
    intro s pcm
    have heq := hencode s pcm
    rw [hcodec, GenCodec.d2eFrames_init] at heq
    exact Int.ofNat_inj.mp (Except.ok.inj heq).symm
  constructor
  · intro h
    have hpos : 0 < conf.outPsize := positive_of_first
      ((h [] fun _ hc => nomatch hc).asserts 1 0 fun _ => Nat.one_pos)
      ((h [.procIn 1 0] fun _ hc => by simp at hc).packets)
    have hset : Setting lib codec conf := ⟨hcodec, hpos, hlength⟩
    refine ⟨by omega, fun c hc hlen => ?_⟩
    have hone : ∀ d, Label.soundout d ∈ [Label.soundout c] → d ∈ S := by
      intro d hd
      cases List.mem_singleton.mp hd
      exact hc
    have htwo : ∀ d, Label.soundout d ∈ [Label.soundout c, .procIn 1 0] → d ∈ S := by
      intro d hd
      rcases List.mem_cons.mp hd with hd | hd
      · exact hone d (List.mem_singleton.mpr hd)
      · exact nomatch List.mem_singleton.mp hd
    have hasserts := (h _ hone).asserts 1 0 fun _ => Nat.one_pos
    have hwhole := (h _ htwo).whole
    rw [Lib.run_cons, Lib.run_nil, step, soundout_first conf s hlen] at hasserts
    rw [Lib.run_cons, Lib.run_cons, Lib.run_nil, step, step, soundout_first conf s hlen] at hwhole
    exact whole_of_first hset rfl rfl rfl rfl hasserts hwhole
  · rintro ⟨hft, hS⟩ ls hls
    have hset : Setting lib codec conf := ⟨hcodec, by omega, hlength⟩
    have hrun := (inv_init lib conf s).run hset fun c hc hlen => hS c (hls c hc) hlen
    exact hrun.framing hset

def silent : Audio Unit where
  resampleLinear pcm rate newRate := List.replicate (pcm.length * newRate / rate) 0
  encode s pcm := (pcm.map fun _ => 255, s)

def pcmu20 : OutputConf := ⟨GenCodec.init .g711, 8000, 20, 20000000, 160⟩

theorem pcmu20_init : OutputConf.init .g711 20 = .ok pcmu20 := by rfl

/-- 25 ms of silence at the rate of the codec, and a packet of it. -/
def narrowband : List Label := [.soundout ⟨List.replicate 200 0, 8000⟩, .procIn 1 0]

theorem framing_iff_narrowband :
    Framing silent pcmu20 () (accepted narrowband) (run (step silent) (init pcmu20 ()) narrowband) := by
  have hencode : ∀ (s : Unit) (pcm : List Int16),
      pcmu20.codec.d2eFrames pcm.length = .ok (silent.encode s pcm).1.length := by
    intro s pcm
    rw [pcmu20, GenCodec.d2eFrames_init, silent, List.length_map]
  apply (framing_iff pcmu20_init hencode () {c : AudioChunk | c.samplerate = 8000}).mpr
  · refine ⟨by decide, fun c hc _ => ?_⟩
    rw [AudioChunk.Whole, AudioChunk.resampled, if_neg fun hne => hne hc]
    rfl
  · intro c hc
    rcases List.mem_cons.mp hc with heq | hc
    · cases heq
      rfl
    · exact nomatch List.mem_singleton.mp hc

def wideband : AudioChunk := ⟨List.replicate 480 0, 16000⟩

/-- The 480 frames need no padding, but the 240 that are left are a packet and a half. -/
theorem wideband_raises :
    ((run (step silent) (init pcmu20 ()) [.soundout wideband]).procIn silent 1 0).2 = .error .assertionError ∧
      ¬ ∀ ls, Framing silent pcmu20 () (accepted ls) (run (step silent) (init pcmu20 ()) ls) := by
  have hraises : ((run (step silent) (init pcmu20 ()) [.soundout wideband]).procIn silent 1 0).2 =
      .error .assertionError := by decide +kernel
  refine ⟨hraises, fun h => ?_⟩
  obtain ⟨r, hr⟩ := (h [.soundout wideband]).asserts 1 0 fun _ => Nat.one_pos
  rw [hraises] at hr
  exact nomatch hr

end OutputWorker

end SippyB2bua.Rtp
