import SnowflakeClient.Block
import SnowflakeClient.Connection.Session

/-!
# The text of a response

`json_resp_cb` and the loop of `http_perform` (`lib/connection.c`), with the buffer that the body of
a response is put together in. `httpPerformFrom` in `SnowflakeClient/Connection/Session.lean` takes
an attempt with what its text parses to; here an attempt has the pieces that curl passes to the
callback, and the text is what the buffer holds.

* `jsonRespCb_eq`: a callback appends its piece to the text in the buffer.
* `perform_returns`: no write is outside of the buffer.
* `response_text`: whatever was received before, the text of the attempt with the code 200 is passed
  to the parser.
* `httpPerformFrom_eq_perform`: with these texts `httpPerformFrom` does the same.
-/

namespace Snowflake
namespace Response

/-- `RAW_JSON_BUFFER`. -/
structure RawJsonBuffer where
  buffer : Option Block
  size : Nat

/-- `json_resp_cb`. -/
def jsonRespCb (raw : RawJsonBuffer) (data : List UInt8) : Run Empty RawJsonBuffer := do
  let buffer := Block.realloc raw.buffer (raw.size + data.length + 1)
  let buffer ← buffer.write raw.size data
  let size := raw.size + data.length
  let buffer ← buffer.write size [0]
  .returned { buffer := some buffer, size }

/-- The callbacks of one attempt. -/
def receive : RawJsonBuffer → List (List UInt8) → Run Empty RawJsonBuffer
  | raw, [] => .returned raw
  | raw, data :: pieces => do receive (← jsonRespCb raw data) pieces

/-- One round of the loop of `http_perform`. -/
inductive Round where
  /-- There is no request id, or an option could not be set. -/
  | notMade
  /-- `curl_easy_perform` or `curl_easy_getinfo` fails, after these pieces. -/
  | notPerformed (pieces : List (List UInt8)) (msg : String)
  | answer (httpCode : Int) (pieces : List (List UInt8))

/-- How the loop ends. -/
inductive Outcome where
  /-- It waits for another attempt. -/
  | waits
  | fails
  /-- This is passed to `cJSON_Parse`. -/
  | parses (text : Option Block)
  deriving DecidableEq, Repr

/-- `[` and `]`. -/
def openBracket : UInt8 := '['.toUInt8

def closeBracket : UInt8 := ']'.toUInt8

/-- The buffer before `curl_easy_perform`: what was there is freed. -/
def seed (chunkDownloader : Bool) : Run Empty RawJsonBuffer :=
  if chunkDownloader then do
    let buffer ← (Block.calloc 2).write 0 [openBracket, 0]
    .returned { buffer := some buffer, size := 1 }
  else .returned { buffer := none, size := 0 }

/-- The buffer after the loop. -/
def close (chunkDownloader : Bool) (raw : RawJsonBuffer) : Run Empty RawJsonBuffer :=
  if chunkDownloader then do
    let buffer := Block.realloc raw.buffer (raw.size + 2)
    let buffer ← buffer.write raw.size [closeBracket]
    let size := raw.size + 1
    let buffer ← buffer.write size [0]
    .returned { buffer := some buffer, size }
  else .returned raw

/-- `http_perform` up to the parser, over the attempts to come. -/
def perform (chunkDownloader : Bool) : List Round → Run Empty Outcome
  | [] => .returned .waits
  | .notMade :: _ => .returned .fails
  | .notPerformed pieces _ :: _ => do
    let raw ← seed chunkDownloader
    let _ ← receive raw pieces
    .returned .fails
  | .answer httpCode pieces :: rest => do
    let raw ← seed chunkDownloader
    let raw ← receive raw pieces
    if httpCode = 200 then
      let raw ← close chunkDownloader raw
      .returned (.parses raw.buffer)
    else if isRetryableHttpCode httpCode then perform chunkDownloader rest
    else .returned .fails

/-! ## The buffer -/

/-- The block of a text: its bytes and the `NUL`, and nothing after it. -/
def textBlock (text : List UInt8) : Block := ⟨(text ++ [0]).map some⟩

/-- The buffer holds the text. Before the first callback there is no block. -/
def Holds (raw : RawJsonBuffer) (text : List UInt8) : Prop :=
  raw.size = text.length ∧ (raw.buffer = some (textBlock text) ∨ raw.buffer = none ∧ text = [])

/-- A block that is made longer for `data`: the old text, and room for the new one. -/
theorem realloc_holds {raw : RawJsonBuffer} {text : List UInt8} (h : Holds raw text)
    (data : List UInt8) :
    ∃ rest, rest.length = data.length + 1 ∧
      Block.realloc raw.buffer (raw.size + data.length + 1) = ⟨text.map some ++ rest⟩ := by
  obtain ⟨hsize, hbuffer⟩ := h
  rcases hbuffer with hbuffer | ⟨hbuffer, rfl⟩
  · refine ⟨some 0 :: List.replicate data.length none, by simp, ?_⟩
    rw [hbuffer, textBlock, Block.realloc_some (by simp [hsize])]
    simp only [List.length_map, List.length_append, List.length_singleton, hsize,
      List.map_append, List.map_cons, List.map_nil, List.append_assoc, List.singleton_append]
    rw [show text.length + data.length + 1 - (text.length + 1) = data.length by omega]
  · rw [hbuffer, Block.realloc_none, hsize]
    exact ⟨List.replicate (data.length + 1) none, by simp, by simp⟩

/-- A callback appends its piece. -/
theorem jsonRespCb_eq {raw : RawJsonBuffer} {text : List UInt8} (h : Holds raw text)
    (data : List UInt8) :
    jsonRespCb raw data =
      .returned ⟨some (textBlock (text ++ data)), (text ++ data).length⟩ := by
  obtain ⟨rest, hrest, hblock⟩ := realloc_holds h data
  have hsize : raw.size = text.length := h.1
  have hlast : (rest.drop data.length).length = 1 := by
    rw [List.length_drop]
    omega
  have hdata : (Block.write ⟨text.map some ++ rest⟩ raw.size data : Run Empty Block) =
      .returned ⟨(text ++ data).map some ++ rest.drop data.length⟩ := by
    rw [Block.write_append (by rw [List.length_map, hsize]) (by omega), List.map_append]
  have hnul : (Block.write ⟨(text ++ data).map some ++ rest.drop data.length⟩
      (raw.size + data.length) [0] : Run Empty Block) = .returned (textBlock (text ++ data)) := by
    rw [Block.write_append (by rw [List.length_map, List.length_append, hsize])
        (by rw [hlast]; rfl), List.drop_of_length_le (by rw [hlast]; rfl), List.append_nil,
      textBlock, ← List.map_append]
  rw [jsonRespCb, hblock, hdata, Run.returned_bind]
  dsimp only
  rw [hnul, Run.returned_bind, List.length_append, hsize]

theorem holds_textBlock (text : List UInt8) : Holds ⟨some (textBlock text), text.length⟩ text :=
  ⟨rfl, .inl rfl⟩

/-- The callbacks append their pieces. The block is there after the first of them. -/
theorem receive_eq {raw : RawJsonBuffer} {text : List UInt8} (h : Holds raw text)
    (pieces : List (List UInt8)) :
    ∃ raw', receive raw pieces = .returned raw' ∧ Holds raw' (text ++ pieces.flatten) ∧
      (raw'.buffer = none ↔ raw.buffer = none ∧ pieces = []) := by
  induction pieces generalizing raw text with
  | nil => exact ⟨raw, rfl, by simpa using h, by simp⟩
  | cons data pieces ih =>
    obtain ⟨raw', hrun, hholds, hnull⟩ := ih (holds_textBlock (text ++ data))
    refine ⟨raw', ?_, ?_, ?_⟩
    · rw [receive, jsonRespCb_eq h, Run.returned_bind, hrun]
    · rwa [List.flatten_cons, ← List.append_assoc]
    · rw [hnull]
      simp

/-- The text that is in the buffer before the body. -/
def seedText (chunkDownloader : Bool) : List UInt8 := if chunkDownloader then [openBracket] else []

theorem seed_eq (chunkDownloader : Bool) :
    ∃ raw, seed chunkDownloader = .returned raw ∧ Holds raw (seedText chunkDownloader) ∧
      (raw.buffer = none ↔ chunkDownloader = false) := by
  cases chunkDownloader with
  | false => exact ⟨⟨none, 0⟩, rfl, ⟨rfl, .inr ⟨rfl, rfl⟩⟩, by simp⟩
  | true =>
    refine ⟨⟨some (textBlock [openBracket]), 1⟩, ?_, ⟨rfl, .inl rfl⟩, by simp⟩
    have hwrite : ((Block.calloc 2).write 0 [openBracket, 0] : Run Empty Block) =
        .returned (textBlock [openBracket]) := by
      rw [Block.write_of_le (by simp)]
      rfl
    simp only [seed, hwrite, Run.returned_bind, if_true]

/-- `]` is one more piece. -/
theorem close_true (raw : RawJsonBuffer) : close true raw = jsonRespCb raw [closeBracket] := rfl

/-! ## The text for the parser -/

/-- What is passed to `cJSON_Parse` for the pieces of a body: the null pointer if there are none and
the chunk downloader has put no bracket. -/
def parserText (chunkDownloader : Bool) (pieces : List (List UInt8)) : Option Block :=
  if chunkDownloader then
    some (textBlock (openBracket :: pieces.flatten ++ [closeBracket]))
  else if pieces = [] then none
  else some (textBlock pieces.flatten)

/-- An attempt, up to its code. -/
theorem receive_seed (chunkDownloader : Bool) (pieces : List (List UInt8)) :
    ∃ raw raw' raw'', seed chunkDownloader = .returned raw ∧ receive raw pieces = .returned raw' ∧
      close chunkDownloader raw' = .returned raw'' ∧
      raw''.buffer = parserText chunkDownloader pieces := by
  obtain ⟨raw, hseed, hraw, hnull⟩ := seed_eq chunkDownloader
  obtain ⟨raw', hreceive, hholds, hnull'⟩ := receive_eq hraw pieces
  cases chunkDownloader with
  | true =>
    have hclose := jsonRespCb_eq hholds [closeBracket]
    exact ⟨raw, raw', _, hseed, hreceive, (close_true raw').trans hclose, rfl⟩
  | false =>
    refine ⟨raw, raw', raw', hseed, hreceive, rfl, ?_⟩
    rw [hnull, and_iff_right rfl] at hnull'
    simp only [parserText, Bool.false_eq_true, if_false]
    split
    · next hpieces => exact hnull'.mpr hpieces
    · next hpieces =>
      rcases hholds.2 with hbuffer | ⟨hbuffer, -⟩
      · exact hbuffer
      · exact absurd (hnull'.mp hbuffer) hpieces

/-- A round of the loop, without the buffer. -/
theorem perform_cons (chunkDownloader : Bool) (httpCode : Int) (pieces : List (List UInt8))
    (rest : List Round) :
    perform chunkDownloader (.answer httpCode pieces :: rest) =
      if httpCode = 200 then .returned (.parses (parserText chunkDownloader pieces))
      else if isRetryableHttpCode httpCode then perform chunkDownloader rest
      else .returned .fails := by
  obtain ⟨raw, raw', raw'', hseed, hreceive, hclose, hbuffer⟩ :=
    receive_seed chunkDownloader pieces
  rw [perform, hseed, Run.returned_bind, hreceive, Run.returned_bind, hclose, Run.returned_bind,
    hbuffer]

theorem perform_notPerformed (chunkDownloader : Bool) (pieces : List (List UInt8)) (msg : String)
    (rest : List Round) :
    perform chunkDownloader (.notPerformed pieces msg :: rest) = .returned .fails := by
  obtain ⟨raw, raw', -, hseed, hreceive, -⟩ := receive_seed chunkDownloader pieces
  rw [perform, hseed, Run.returned_bind, hreceive, Run.returned_bind]

/-- No write is outside of the buffer, whatever comes. -/
theorem perform_returns (chunkDownloader : Bool) (rounds : List Round) :
    ∃ outcome, perform chunkDownloader rounds = .returned outcome := by
  induction rounds with
  | nil => exact ⟨_, rfl⟩
  | cons round rest ih =>
    cases round with
    | notMade => exact ⟨_, rfl⟩
    | notPerformed pieces msg => exact ⟨_, perform_notPerformed ..⟩
    | answer httpCode pieces =>
      rw [perform_cons]
      split
      · exact ⟨_, rfl⟩
      · split
        · exact ih
        · exact ⟨_, rfl⟩

theorem isRetryableHttpCode_ne {httpCode : Int} (h : isRetryableHttpCode httpCode = true) :
    httpCode ≠ 200 := by
  rintro rfl
  exact absurd h (by decide)

/-- The text of the last attempt is passed to the parser, with its `NUL` and the brackets of the
chunk downloader, and nothing of the attempts before. Nothing is passed if nothing was received and
there are no brackets. -/
theorem response_text (chunkDownloader : Bool) (earlier : List (Int × List (List UInt8)))
    (hretry : ∀ a ∈ earlier, isRetryableHttpCode a.1 = true) (last : List (List UInt8)) :
    perform chunkDownloader (earlier.map (fun a => .answer a.1 a.2) ++ [.answer 200 last]) =
      .returned (.parses (parserText chunkDownloader last)) := by
  induction earlier with
  | nil => rw [List.map_nil, List.nil_append, perform_cons, if_pos rfl]
  | cons a earlier ih =>
    obtain ⟨ha, hrest⟩ := List.forall_mem_cons.mp hretry
    rw [List.map_cons, List.cons_append, perform_cons, if_neg (isRetryableHttpCode_ne ha),
      if_pos ha, ih hrest]

/-- A body in two pieces after an attempt with the code 503. -/
theorem response_text_retried :
    perform true [.answer 503 [[1, 2]], .answer 200 [[49], [44, 50]]] =
      .returned (.parses (some (textBlock [openBracket, 49, 44, 50, closeBracket]))) :=
  response_text true [(503, [[1, 2]])] (by decide) [[49], [44, 50]]

/-- An empty body without a callback: the null pointer, and no text. -/
theorem response_text_null : perform false [.answer 200 []] = .returned (.parses none) := rfl

/-! ## The attempts of a session -/

section Attempts

variable (parse : Block → Option Json)

/-- A round as `httpPerformFrom` has it: with what its text parses to. `cJSON_Parse` refuses the
null pointer. -/
def Round.toAttempt (chunkDownloader : Bool) : Round → Attempt
  | notMade => .notMade
  | notPerformed _ msg => .notPerformed msg
  | answer httpCode pieces => .answer httpCode ((parserText chunkDownloader pieces).bind parse)

/-- What `http_perform` returns and leaves in `*json`, by the end of the loop. -/
def Outcome.result (slot : Option Json) : Outcome → Option (Bool × Option Json)
  | waits => none
  | fails => some (false, slot)
  | parses text =>
    match text.bind parse with
    | some json => some (true, some json)
    | none => some (false, none)

/-- The loop with the buffer ends as the one of `httpPerformFrom` does. -/
theorem httpPerformFrom_eq_perform (chunkDownloader : Bool) (slot : Option Json)
    (rounds : List Round) (s : Session) :
    ∃ outcome, perform chunkDownloader rounds = .returned outcome ∧
      (httpPerformFrom slot (rounds.map (Round.toAttempt parse chunkDownloader)) s).1 =
        outcome.result parse slot := by
  induction rounds with
  | nil => exact ⟨.waits, rfl, rfl⟩
  | cons round rest ih =>
    cases round with
    | notMade => exact ⟨.fails, rfl, rfl⟩
    | notPerformed pieces msg => exact ⟨.fails, perform_notPerformed .., rfl⟩
    | answer httpCode pieces =>
      rw [perform_cons, List.map_cons]
      simp only [Round.toAttempt, httpPerformFrom]
      by_cases hok : httpCode = 200
      · rw [if_pos hok, if_pos hok]
        refine ⟨_, rfl, ?_⟩
        simp only [Outcome.result]
        cases (parserText chunkDownloader pieces).bind parse with
        | none => rfl
        | some json => rfl
      rw [if_neg hok, if_neg hok]
      by_cases hretry : isRetryableHttpCode httpCode = true
      · rw [if_pos hretry, if_pos hretry]
        exact ih
      · rw [if_neg hretry, if_neg hretry]
        exact ⟨.fails, rfl, rfl⟩

end Attempts

end Response
end Snowflake
