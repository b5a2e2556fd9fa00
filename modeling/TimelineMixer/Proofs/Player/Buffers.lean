import Mathlib
import TimelineMixer.Proofs.Ledger
import TimelineMixer.Proofs.Output.Playout
import TimelineMixer.Proofs.Player.Periods

/-!
# Periods in given buffers

An output hands over a buffer that still holds what was played before. A buffer of samples is
cleared and mixed in place. For a buffer of bytes the samples are made at the beginning of a scratch
buffer, which only ever grows and keeps what earlier periods have left in it, and are written over
the bytes four at a time.

Nothing of the old contents comes through (`Renderer.fill_eq`). In every run of such calls, whatever
other threads do in between, each call does what the player alone would do, and the counters are the
numbers of calls of each kind (`Renderer.run_accounted`).
-/

set_option autoImplicit false
set_option relaxedAutoImplicit false

namespace TimelineMixer

/-! ### Writing in place -/

namespace Sample

/-- Writes samples over a row of bytes, as far as both reach. -/
def writeOver : List Float32 → List UInt8 → List UInt8
  | sample :: samples, _ :: _ :: _ :: _ :: out => bytes sample ++ writeOver samples out
  | _, out => out

theorem writeOver_eq (samples : List Float32) {out : List UInt8}
    (h : width * samples.length ≤ out.length) :
    writeOver samples out = encode samples ++ out.drop (width * samples.length) := by
  induction samples generalizing out with
  | nil => rfl
  | cons sample samples ih =>
    rw [List.length_cons, Nat.mul_succ] at h ⊢
    match out, h with
    | _ :: _ :: _ :: _ :: out, h =>
      have hrest : width * samples.length ≤ out.length := Nat.le_of_add_le_add_right h
      rw [writeOver, ih hrest]
      exact (List.append_assoc ..).symm

end Sample

/-- Produces a period in a buffer of samples, which is cleared first. -/
def Player.renderInto (player : Player) (locked : Bool) (out : List Float32) :
    List Float32 × Player :=
  let cleared := out.map fun _ ↦ 0
  let called := player.countCallback
  let period := if player.deck.transport = .playing then called.playPeriod locked cleared
    else (cleared, called.countSilent)
  (period.1, period.2.finishPeriod (Sample.width * out.length))

theorem Player.renderInto_eq (player : Player) (locked : Bool) (out : List Float32) :
    player.renderInto locked out = player.renderSamples locked out.length := by
  rw [renderInto, renderSamples_eq, List.map_const']

/-! ### The renderer -/

/-- A player with the buffer that it renders bytes with. -/
structure Renderer where
  player : Player
  scratch : List Float32

namespace Renderer

/-- A renderer that was not called yet. -/
def new (player : Player) : Renderer :=
  ⟨{ player with stats := .zero }, []⟩

/-- Makes room for some samples. -/
def reserve (renderer : Renderer) (count : Nat) : Renderer :=
  { renderer with
    scratch := renderer.scratch ++ List.replicate (count - renderer.scratch.length) 0 }

/-- Fills a buffer of samples. -/
def renderSamples (renderer : Renderer) (locked : Bool) (out : List Float32) :
    List Float32 × Renderer :=
  let period := renderer.player.renderInto locked out
  (period.1, { renderer with player := period.2 })

/-- Fills a buffer of bytes. -/
def render (renderer : Renderer) (locked : Bool) (out : List UInt8) : List UInt8 × Renderer :=
  let count := out.length / Sample.width
  let scratch := (renderer.reserve count).scratch
  let period := renderer.player.renderInto locked (scratch.take count)
  let written := Sample.writeOver period.1 out
  (written.take (Sample.width * count) ++ (written.drop (Sample.width * count)).map fun _ ↦ 0,
    ⟨period.2, period.1 ++ scratch.drop count⟩)

theorem length_take_reserve (renderer : Renderer) (count : Nat) :
    ((renderer.reserve count).scratch.take count).length = count := by
  rw [reserve, List.length_take, List.length_append, List.length_replicate]
  omega

theorem renderSamples_eq (renderer : Renderer) (locked : Bool) (out : List Float32) :
    renderer.renderSamples locked out = ((renderer.player.renderSamples locked out.length).1,
      ⟨(renderer.player.renderSamples locked out.length).2, renderer.scratch⟩) := by
  rw [renderSamples, Player.renderInto_eq]

/-- A buffer of bytes is filled to its last byte, as if the scratch buffer were new. -/
theorem render_eq (renderer : Renderer) (locked : Bool) (out : List UInt8) :
    (renderer.render locked out).1 = (renderer.player.render locked out.length).1 ∧
      (renderer.render locked out).2.player = (renderer.player.render locked out.length).2 := by
  rw [render, Player.render]
  dsimp only
  rw [Player.renderInto_eq, length_take_reserve]
  refine ⟨?_, rfl⟩
  have hperiod := renderer.player.length_renderSamples locked (out.length / Sample.width)
  generalize (renderer.player.renderSamples locked (out.length / Sample.width)).1 = period
    at hperiod ⊢
  have hencoded : (Sample.encode period).length = Sample.width * (out.length / Sample.width) := by
    rw [Sample.length_encode, hperiod]
  have hrest : (out.drop (Sample.width * (out.length / Sample.width))).length =
      out.length % Sample.width := by
    rw [List.length_drop, Nat.mod_eq_sub]
  rw [Sample.writeOver_eq period (hperiod ▸ Nat.mul_div_le _ _), hperiod,
    List.take_left' hencoded, List.drop_left' hencoded, List.map_const', hrest]

/-- A buffer of bytes says the samples that a buffer of samples gets. -/
theorem decode_render (renderer : Renderer) (locked : Bool) (out : List UInt8) :
    Sample.decode (renderer.render locked out).1 =
      (renderer.player.renderSamples locked (out.length / Sample.width)).1 := by
  have hencoded : Sample.width ∣ (Sample.encode (renderer.player.renderSamples locked
      (out.length / Sample.width)).1).length := by
    rw [Sample.length_encode]
    exact Nat.dvd_mul_right _ _
  have hrest : Sample.decode (List.replicate (out.length % Sample.width) 0) = [] := by
    rw [← List.length_eq_zero_iff, Sample.length_decode, List.length_replicate]
    exact Nat.div_eq_of_lt (Nat.mod_lt _ (by decide))
  rw [(renderer.render_eq locked out).1, Player.render]
  dsimp only
  rw [Sample.decode_append hencoded, hrest, List.append_nil, Sample.decode_encode]
  simp only [Float32.ofBits_toBits, List.map_id']

/-- Stale bytes give way to silence, those behind the last whole sample too. -/
example : ((new (.new .standard 1 ⟨1, [], 0, true⟩ (.new 0 1))).render false
    [0xaa, 0xaa, 0xaa, 0xaa, 0xff]).1 = [0, 0, 0, 0, 0] := by
  rfl

end Renderer

/-! ### Calls -/

/-- A buffer to fill. -/
inductive Buffer where
  | bytes (content : List UInt8)
  | samples (content : List Float32)

namespace Buffer

/-- What is asked for with a buffer. -/
inductive Request where
  | bytes (length : Nat)
  | samples (length : Nat)

/-- The whole samples asked for. -/
def Request.whole : Request → Nat
  | .bytes length => length / Sample.width
  | .samples length => length

/-- A buffer asks for its length. -/
def request : Buffer → Request
  | bytes content => .bytes content.length
  | samples content => .samples content.length

end Buffer

namespace Player

/-- What a player does when a period is asked for. -/
def serve (player : Player) (locked : Bool) : Buffer.Request → Buffer × Player
  | .bytes length =>
    let period := player.render locked length
    (.bytes period.1, period.2)
  | .samples length =>
    let period := player.renderSamples locked length
    (.samples period.1, period.2)

variable (player : Player) (locked : Bool)

theorem serve_snd (request : Buffer.Request) :
    (player.serve locked request).2 = (player.renderSamples locked request.whole).2 := by
  cases request <;> rfl

/-- What is asked for is what comes. -/
theorem request_serve (request : Buffer.Request) :
    (player.serve locked request).1.request = request := by
  cases request with
  | bytes length => exact congrArg Buffer.Request.bytes (player.length_render locked length)
  | samples length =>
    exact congrArg Buffer.Request.samples (player.length_renderSamples locked length)

/-- A player that has recorded something serves like one that has not. -/
theorem serve_alone (request : Buffer.Request) :
    (player.serve locked request).1 = (player.alone.serve locked request).1 ∧
      Mirrors player (player.serve locked request).2 (player.alone.serve locked request).2 := by
  obtain ⟨hout, hmirrors⟩ := player.mirrors_alone.renderSamples locked request.whole
  rw [serve_snd, serve_snd]
  refine ⟨?_, hmirrors⟩
  cases request with
  | bytes length =>
    exact congrArg (fun out ↦ Buffer.bytes
      (Sample.encode out ++ List.replicate (length % Sample.width) 0)) hout
  | samples length => exact congrArg Buffer.samples hout

theorem report_alone (bytes : Nat) :
    player.alone.report locked bytes = player.report locked bytes := by
  have hstore := (player.mirrors_alone.renderSamples locked (bytes / Sample.width)).2.store
  rw [report, report, levels, levels, render_snd, render_snd, hstore]
  rfl

theorem channel_serve (request : Buffer.Request) :
    (player.serve locked request).2.channel =
      player.channel.emitAll (player.report locked (Sample.width * request.whole)) := by
  have hwhole : Sample.width * request.whole / Sample.width = request.whole :=
    Nat.mul_div_cancel_left _ (by decide)
  have hrender := (player.channel_render locked (Sample.width * request.whole)).2
  rw [render_snd, hwhole] at hrender
  rw [serve_snd, hrender, report]

end Player

namespace Renderer

/-- A call with a buffer, which comes back filled. -/
def fill (renderer : Renderer) (locked : Bool) : Buffer → Buffer × Renderer
  | .bytes out =>
    let period := renderer.render locked out
    (.bytes period.1, period.2)
  | .samples out =>
    let period := renderer.renderSamples locked out
    (.samples period.1, period.2)

/-- Whatever the buffer and the scratch buffer hold, a call does what the player does for one of
this length. -/
theorem fill_eq (renderer : Renderer) (locked : Bool) (out : Buffer) :
    (renderer.fill locked out).1 = (renderer.player.serve locked out.request).1 ∧
      (renderer.fill locked out).2.player =
        (renderer.player.serve locked out.request).2 := by
  cases out with
  | bytes content =>
    obtain ⟨hout, hplayer⟩ := renderer.render_eq locked content
    exact ⟨congrArg Buffer.bytes hout, hplayer⟩
  | samples content =>
    rw [fill, renderSamples_eq]
    exact ⟨rfl, rfl⟩

/-- A renderer that is called with a buffer. -/
structure Call where
  before : Renderer
  locked : Bool
  out : Buffer

namespace Call

variable (call : Call)

/-- The whole samples that are asked for. -/
def count : Nat :=
  call.out.request.whole

def kind : PeriodKind :=
  call.before.player.kind call.locked call.count

/-- The buffer after the call. -/
def written : Buffer :=
  (call.before.fill call.locked call.out).1

def after : Renderer :=
  (call.before.fill call.locked call.out).2

/-- The call fills the buffer, and changes the player, as the deck, the queues and the monitor of
the player alone say for a buffer of this length. -/
structure Clean : Prop where
  request : call.written.request = call.out.request
  written : call.written = (call.before.player.alone.serve call.locked call.out.request).1
  mirrors : call.before.player.Mirrors call.after.player
    (call.before.player.alone.serve call.locked call.out.request).2
  channel : call.after.player.channel =
    call.before.player.channel.emitAll
      (call.before.player.alone.report call.locked (Sample.width * call.count))

theorem clean : call.Clean := by
  obtain ⟨hwritten, hafter⟩ := call.before.fill_eq call.locked call.out
  obtain ⟨hout, hmirrors⟩ := call.before.player.serve_alone call.locked call.out.request
  refine ⟨?_, hwritten.trans hout, ?_, ?_⟩
  · exact (congrArg Buffer.request hwritten).trans (Player.request_serve ..)
  · rw [after, hafter]
    exact hmirrors
  · rw [after, hafter, Player.report_alone]
    exact Player.channel_serve ..

theorem accounted :
    call.before.player.Accounted call.locked call.count call.after.player := by
  rw [after, (call.before.fill_eq call.locked call.out).2, Player.serve_snd]
  exact Player.accounted_renderSamples ..

end Call

/-! ### Runs of calls -/

/-- What happens to a renderer. -/
inductive Act where
  | fill (locked : Bool) (out : Buffer)
  | reserve (count : Nat)
  /-- Other threads change what they share with the renderer. -/
  | share (deck : Deck) (store : LayerStore) (poisoned : Bool) (channel : EventChannel)
      (journal : List Notice)

/-- The renderer after an act. -/
def step (renderer : Renderer) : Act → Renderer
  | .fill locked out => (renderer.fill locked out).2
  | .reserve count => renderer.reserve count
  | .share deck store poisoned channel journal =>
    { renderer with player := { renderer.player with deck, store, poisoned, channel, journal } }

/-- The renderer after acts one after the other. -/
def run (renderer : Renderer) (acts : List Act) : Renderer :=
  acts.foldl step renderer

/-- The calls of a run. -/
def calls : Renderer → List Act → List Call :=
  gather step fun renderer act ↦
    match act with
    | .fill locked out => [⟨renderer, locked, out⟩]
    | _ => []

/-- The counters tell how many calls of each kind there were. -/
structure Tallied (stats : RenderStats) (calls : List Call) : Prop where
  callbacks : stats.callbacks = calls.length
  silent : stats.silent = calls.countP fun call ↦ call.kind = .silent
  contended : stats.contended = calls.countP fun call ↦ call.kind = .contended
  starved : stats.starved = calls.countP fun call ↦ call.kind.starves
  bytes : stats.bytes = (calls.map fun call ↦ Sample.width * call.count).sum

/-- One more call. -/
theorem Tallied.concat {calls : List Call} (call : Call)
    (h : Tallied call.before.player.stats calls) :
    Tallied call.after.player.stats (calls ++ [call]) := by
  obtain ⟨hcallbacks, hsilent, hcontended, hstarved, hbytes⟩ := h
  have haccounted := call.accounted
  have hdecide : ∀ kind, (if call.kind = kind then 1 else 0) =
      if decide (call.kind = kind) = true then 1 else 0 :=
    fun _ ↦ if_congr decide_eq_true_iff.symm rfl rfl
  refine ⟨?_, ?_, ?_, ?_, ?_⟩
  · rw [haccounted.callbacks, hcallbacks, List.length_append, List.length_singleton]
  · rw [haccounted.silent, hsilent, List.countP_append, List.countP_singleton]
    exact congrArg _ (hdecide _)
  · rw [haccounted.contended, hcontended, List.countP_append, List.countP_singleton]
    exact congrArg _ (hdecide _)
  · rw [haccounted.starved, hstarved, List.countP_append, List.countP_singleton]
    rfl
  · rw [haccounted.bytes, hbytes, List.map_append, List.sum_append, List.map_singleton,
      List.sum_singleton]

theorem tallied_run (player : Player) (acts : List Act) :
    Tallied ((new player).run acts).player.stats ((new player).calls acts) := by
  induction acts using List.reverseRecOn with
  | nil => exact ⟨rfl, rfl, rfl, rfl, rfl⟩
  | append_singleton acts act ih =>
    rw [run, List.foldl_append, calls, gather_concat]
    cases act with
    | fill locked out => exact ih.concat ⟨(new player).run acts, locked, out⟩
    | reserve count => exact (List.append_nil _).symm ▸ ih
    | share deck store poisoned channel journal => exact (List.append_nil _).symm ▸ ih

/-- Every call fills its buffer, whatever it and the scratch buffer held before, and the player
after it depends on nothing but the deck, the queues, the monitor and the length. Every call is
silent, contended or mixed, and accounted for as such; over any run of calls of any lengths,
whatever other threads do in between, the counters tell how many calls there were of each kind. -/
theorem run_accounted (player : Player) (acts : List Act) :
    Tallied ((new player).run acts).player.stats ((new player).calls acts) ∧
    ∀ call ∈ (new player).calls acts, call.Clean ∧
      call.before.player.Accounted call.locked call.count call.after.player :=
  ⟨tallied_run player acts, fun call _ ↦ ⟨call.clean, call.accounted⟩⟩

end Renderer

end TimelineMixer
