import PromScrape.Library.Http
import PromScrape.Library.Scan
import PromScrape.Proofs.Process

set_option autoImplicit false

/-! # What goes over a connection

How a client's bytes are cut into reads makes no difference to what it asks for, and it reads exactly
the status and the body of the answer. -/

namespace PromScrape

open Utf8 (encode utf8Bytes ofUtf8Bytes?)

/-! ## The request -/

/-- A connection after some reads. -/
def readAll (chunks : List (List UInt8)) : RequestRead := chunks.foldl RequestRead.read {}

/-- What a client sent: nothing comes after the end of the stream. -/
def arrived (chunks : List (List UInt8)) : List UInt8 := (chunks.takeWhile (!·.isEmpty)).flatten

/-- The first line of a stream, with its line feed. -/
def headLine (bytes : List UInt8) : List UInt8 :=
  bytes.takeWhile (· != 10) ++ (bytes.dropWhile (· != 10)).take 1

namespace RequestRead

theorem foldl_finished {r : RequestRead} (h : r.finished = true) (chunks : List (List UInt8)) :
    chunks.foldl read r = r := by
  induction chunks with
  | nil => rfl
  | cons chunk chunks ih =>
      have hread : r.read chunk = r := by simp [read, h]
      rw [List.foldl_cons, hread, ih]

/-- What reading has come to: the request is what was sent so far, and reading ends with the stream,
    after a blank line or above 8192 bytes. -/
theorem foldl_spec (chunks : List (List UInt8)) {r : RequestRead} (h : r.finished = false) :
    (chunks.foldl read r).request <+: r.request ++ arrived chunks ∧
      ((chunks.foldl read r).finished = true →
        (chunks.foldl read r).request = r.request ++ arrived chunks ∨
          hasBlankLine (chunks.foldl read r).request = true ∨
          8192 < (chunks.foldl read r).request.length) := by
  induction chunks generalizing r with
  | nil => exact ⟨by simp [arrived], fun hfinished => absurd hfinished (by simp [h])⟩
  | cons chunk chunks ih =>
      rw [List.foldl_cons]
      by_cases hempty : chunk = []
      · subst hempty
        have hread : r.read [] = { r with finished := true } := by simp [read, h]
        rw [hread, foldl_finished rfl]
        simp [arrived]
      · have harrived : arrived (chunk :: chunks) = chunk ++ arrived chunks := by
          simp [arrived, hempty]
        rw [harrived, ← List.append_assoc]
        have hread : r.read chunk = ⟨r.request ++ chunk,
            hasBlankLine (r.request ++ chunk) || 8192 < (r.request ++ chunk).length⟩ := by
          simp [read, h, hempty]
        by_cases hends : (r.read chunk).finished = true
        · rw [foldl_finished hends]
          rw [hread] at hends ⊢
          refine ⟨List.prefix_append _ _, fun _ => .inr ?_⟩
          simpa using hends
        · have hnext := ih (Bool.eq_false_iff.mpr hends)
          rwa [hread] at hnext ⊢

theorem length_le {bound : Nat} (chunks : List (List UInt8)) {r : RequestRead}
    (hchunks : ∀ chunk ∈ chunks, chunk.length ≤ bound) (h : r.request.length ≤ 8192 + bound)
    (hopen : r.finished = false → r.request.length ≤ 8192) :
    (chunks.foldl read r).request.length ≤ 8192 + bound := by
  induction chunks generalizing r with
  | nil => exact h
  | cons chunk chunks ih =>
      rw [List.foldl_cons]
      have hchunk := hchunks chunk List.mem_cons_self
      refine ih (fun c hc => hchunks c (List.mem_cons_of_mem _ hc)) ?_ ?_
      · unfold read
        split_ifs with hfinished hempty
        · exact h
        · exact h
        · have := hopen (Bool.eq_false_iff.mpr hfinished)
          simp only [List.length_append]
          omega
      · unfold read
        split_ifs with hfinished hempty
        · intro hnot
          rw [hfinished] at hnot
          cases hnot
        · intro hnot
          cases hnot
        · intro hnot
          simp only [Bool.or_eq_false_iff, decide_eq_false_iff_not, not_lt] at hnot
          exact hnot.2

end RequestRead

theorem readAll_spec (chunks : List (List UInt8)) :
    (readAll chunks).request <+: arrived chunks ∧
      ((readAll chunks).finished = true → (readAll chunks).request = arrived chunks ∨
        hasBlankLine (readAll chunks).request = true ∨ 8192 < (readAll chunks).request.length) :=
  RequestRead.foldl_spec chunks (r := {}) rfl

theorem mem_of_hasBlankLine {bytes : List UInt8} (h : hasBlankLine bytes = true) : 10 ∈ bytes := by
  induction bytes using hasBlankLine.induct with
  | case1 rest => simp
  | case2 b rest hnot ih =>
      rw [hasBlankLine] at h
      · exact List.mem_cons_of_mem _ (ih h)
      · exact hnot
  | case3 => cases h

/-- A prefix that holds a line feed has the first line of the whole. -/
theorem headLine_append {bytes : List UInt8} (h : 10 ∈ bytes) (rest : List UInt8) :
    headLine (bytes ++ rest) = headLine bytes := by
  induction bytes with
  | nil => cases h
  | cons b bytes ih =>
      by_cases hb : b = 10
      · simp [headLine, hb]
      · have hrest := ih ((List.mem_cons.mp h).resolve_left fun heq => hb heq.symm)
        unfold headLine at hrest ⊢
        simpa [hb] using hrest

/-- Without a line feed, what there is is a part of the first line. -/
theorem prefix_headLine {bytes : List UInt8} (h : 10 ∉ bytes) (rest : List UInt8) :
    bytes <+: headLine (bytes ++ rest) := by
  have hall : ∀ b ∈ bytes, (b != 10) = true := by
    intro b hb
    simp only [bne_iff_ne, ne_eq]
    exact fun heq => h (heq ▸ hb)
  rw [headLine, List.takeWhile_append_of_pos hall, List.append_assoc]
  exact List.prefix_append _ _

/-- What was read has the first line of what was sent, or it is the start of a first line that is too
    long. -/
theorem headLine_readAll {chunks : List (List UInt8)} (hfinished : (readAll chunks).finished = true) :
    headLine (readAll chunks).request = headLine (arrived chunks) ∨
      8192 < (readAll chunks).request.length ∧
        (readAll chunks).request <+: headLine (arrived chunks) := by
  obtain ⟨⟨rest, hrest⟩, hends⟩ := readAll_spec chunks
  by_cases hlf : 10 ∈ (readAll chunks).request
  · left
    rw [← hrest, headLine_append hlf]
  · rcases hends hfinished with hall | hblank | hlong
    · left
      rw [← hall]
    · exact absurd (mem_of_hasBlankLine hblank) hlf
    · right
      refine ⟨hlong, ?_⟩
      rw [← hrest]
      exact prefix_headLine hlf rest

theorem nextLine_headLine (cs : List Char) :
    nextLine (cs.takeWhile (· != '\n') ++ (cs.dropWhile (· != '\n')).take 1) = nextLine cs := by
  have hall : ∀ c ∈ cs.takeWhile (· != '\n'), (c != '\n') = true := fun _ hc =>
    List.mem_takeWhile_imp (p := (· != '\n')) hc
  have hline : (cs.takeWhile (· != '\n') ++ (cs.dropWhile (· != '\n')).take 1).takeWhile
      (· != '\n') = cs.takeWhile (· != '\n') := by
    rw [List.takeWhile_append_of_pos hall]
    cases hdrop : cs.dropWhile (· != '\n') with
    | nil => simp
    | cons c rest =>
        have hc : (c != '\n') = false := by
          have := List.head?_dropWhile_not (· != '\n') cs
          rw [hdrop] at this
          simpa using this
        simp [hc]
  have hlength : (cs.takeWhile (· != '\n')).length <
      (cs.takeWhile (· != '\n') ++ (cs.dropWhile (· != '\n')).take 1).length ↔
      (cs.takeWhile (· != '\n')).length < cs.length := by
    have hsplit := congrArg List.length
      (List.takeWhile_append_dropWhile (p := (· != '\n')) (l := cs))
    rw [List.length_append] at hsplit ⊢
    cases hdrop : cs.dropWhile (· != '\n') with
    | nil =>
        rw [hdrop, List.length_nil] at hsplit
        simp only [List.take_nil, List.length_nil]
        omega
    | cons c rest =>
        rw [hdrop, List.length_cons] at hsplit
        simp only [List.take_succ_cons, List.length_cons]
        omega
  unfold nextLine
  simp only [hline, hlength]

/-- **A request is understood by its first line.** -/
theorem parseRequest_headLine {request : List UInt8} {text : String}
    (h : ofUtf8Bytes? request = some text) :
    parseRequest (headLine request) = parseRequest request := by
  obtain ⟨cs, rfl⟩ : ∃ cs, request = encode cs :=
    ⟨text.toList, by rw [Utf8.eq_of_ofUtf8Bytes? h, Utf8.utf8Bytes_eq_encode]⟩
  have huniform : Scan.Uniform (· != 10) (· != '\n') :=
    (Scan.uniform_beq (a := '\n') (by decide)).not
  have hfeed : ((encode cs).dropWhile (· != 10)).take 1 =
      encode ((cs.dropWhile (· != '\n')).take 1) := by
    rw [huniform.dropWhile_encode]
    cases hdrop : cs.dropWhile (· != '\n') with
    | nil => rfl
    | cons c rest =>
        have hc : c = '\n' := by
          have := List.head?_dropWhile_not (· != '\n') cs
          rw [hdrop] at this
          simpa using this
        subst hc
        rfl
  rw [headLine, huniform.takeWhile_encode, hfeed, ← Utf8.encode_append, parseRequest, parseRequest,
    Utf8.ofUtf8Bytes?_encode, Utf8.ofUtf8Bytes?_encode]
  simp only [String.toList_ofList, nextLine_headLine]

/-! ## The answer -/

def responseHeaders (body : String) : List (List UInt8 × List UInt8) := [
  (utf8Bytes "content-type", utf8Bytes "text/plain; charset=utf-8"),
  (utf8Bytes "content-length", Http.ascii (Nat.toDigits 10 (utf8Bytes body).length)),
  (utf8Bytes "connection", utf8Bytes "close")]

def responseOf (status body : String) : Http.Response where
  status := utf8Bytes status
  headers := responseHeaders body
  body := utf8Bytes body

theorem encode_ascii {cs : List Char} (h : ∀ c ∈ cs, c.toNat < 128) : encode cs = Http.ascii cs := by
  induction cs with
  | nil => rfl
  | cons c cs ih =>
      rw [Utf8.encode_cons, Scan.encodeChar_ascii (h c List.mem_cons_self),
        ih fun d hd => h d (List.mem_cons_of_mem _ hd)]
      rfl

theorem utf8Bytes_toString (n : Nat) :
    utf8Bytes (toString n) = Http.ascii (Nat.toDigits 10 n) := by
  rw [Utf8.utf8Bytes_eq_encode, show (toString n).toList = Nat.toDigits 10 n from Nat.toList_repr]
  refine encode_ascii fun c hc => ?_
  obtain ⟨-, hle⟩ := Http.digit_lt hc
  omega

theorem httpResponse_eq_write (status body : String) :
    utf8Bytes (httpResponse status body) = Http.write (responseOf status body) := by
  have hversion : utf8Bytes "HTTP/1.1 " = Http.version := by decide +kernel
  have hfields : utf8Bytes "\r\ncontent-type: text/plain; charset=utf-8\r\ncontent-length: " =
      [13, 10] ++ utf8Bytes "content-type" ++ (58 :: 32 :: utf8Bytes "text/plain; charset=utf-8") ++
        [13, 10] ++ utf8Bytes "content-length" ++ [58, 32] := by decide +kernel
  have hend : utf8Bytes "\r\nconnection: close\r\n\r\n" =
      [13, 10] ++ utf8Bytes "connection" ++ (58 :: 32 :: utf8Bytes "close") ++
        [13, 10, 13, 10] := by decide +kernel
  simp only [httpResponse, Utf8.utf8Bytes_append, utf8Bytes_toString, Http.write, responseOf,
    responseHeaders, List.flatMap_cons, List.flatMap_nil, Http.writeLine, Http.writeField,
    hversion, hfields, hend]
  simp

/-- The statuses of all answers. -/
def statuses : List String := ["200 OK", "403 Forbidden", "404 Not Found", "405 Method Not Allowed",
  "500 Internal Server Error", "503 Service Unavailable"]

theorem route_status {state : WebState} {method path status body : String}
    (h : route state method path = .answer status body) : status ∈ statuses := by
  have hsame : ∀ {text content}, Routed.answer text content = .answer status body →
      text ∈ statuses → status ∈ statuses := by
    intro text content heq htext
    injection heq with hstatus
    rwa [← hstatus]
  have hlifecycle : ∀ {command success},
      lifecycleRequest state.lifecycle command success = .answer status body →
        status ∈ statuses := by
    intro command success hroute
    unfold lifecycleRequest at hroute
    split at hroute
    · cases hroute
    · exact hsame hroute (by decide)
  unfold route at h
  split_ifs at h
  · exact hsame h (by decide)
  · exact hsame h (by decide)
  · exact hsame h (by decide)
  · exact hsame h (by decide)
  · exact hlifecycle h
  · exact hlifecycle h
  · exact hsame h (by decide)
  · exact hsame h (by decide)

theorem answered_status {deps : LifecycleDeps} {settings : ProcessSettings deps}
    {events : List ProcessEvent} {id : Nat} {target : String × String} {status body : String}
    (h : Answered settings events id target status body) : status ∈ statuses := by
  cases h with
  | routed _ _ _ _ _ hroute => exact route_status hroute
  | @handled command reply hasks hreply =>
      cases reply with
      | ok => exact List.mem_cons_self
      | error message => simp [lifecycleResponse, statuses]
  | discarded | late => simp [statuses]

theorem responseOf_wellFormed {status : String} (h : status ∈ statuses) (body : String) :
    (responseOf status body).WellFormed where
  status := by
    have hall : ∀ s ∈ statuses, 13 ∉ utf8Bytes s := by decide +kernel
    exact hall status h
  fields := by
    have hdigits : ∀ b ∈ Http.ascii (Nat.toDigits 10 (utf8Bytes body).length), 48 ≤ b ∧ b ≤ 57 := by
      intro b hb
      obtain ⟨c, hc, rfl⟩ := List.mem_map.mp hb
      exact Http.digit_bounds hc
    have hlength : 13 ∉ Http.ascii (Nat.toDigits 10 (utf8Bytes body).length) := by
      intro hmem
      exact absurd (hdigits 13 hmem).1 (by decide)
    have hhead : (Http.ascii (Nat.toDigits 10 (utf8Bytes body).length)).head? ≠ some 32 := by
      intro hspace
      exact absurd (hdigits 32 (List.mem_of_mem_head? hspace)).1 (by decide)
    have hname : 13 ∉ utf8Bytes "content-length" ∧ 58 ∉ utf8Bytes "content-length" := by
      decide +kernel
    intro field hfield
    simp only [responseOf, responseHeaders, List.mem_cons, List.not_mem_nil, or_false] at hfield
    rcases hfield with rfl | rfl | rfl
    · decide +kernel
    · exact ⟨hname.1, hname.2, hlength, hhead⟩
    · decide +kernel
  announced := by
    refine Http.contentLength_toDigits ?_
    have hname : utf8Bytes "content-length" = Http.contentLengthName := by decide +kernel
    have hother : (utf8Bytes "content-type" == Http.contentLengthName) = false := by decide +kernel
    simp [responseOf, responseHeaders, hname, hother]

/-- **Client and process understand each other.** However a request is cut into reads, what it is taken
    to ask for is what the first line of what was read says, or nothing if what was read is not UTF-8;
    and that is the first line that was sent, or, if this one was not read to its end, more than its
    first 8192 bytes. Reads of at most 1024 bytes never make a request larger than 9216 bytes. A client
    reads back the status and the body of whatever the process answers; if it asked with `HEAD`, it
    reads the status and the headers, and the body is left as what follows. -/
theorem client_understood {deps : LifecycleDeps} (settings : ProcessSettings deps)
    (chunks : List (List UInt8)) (hchunks : ∀ chunk ∈ chunks, chunk.length ≤ 1024)
    (hfinished : (readAll chunks).finished = true) :
    (readAll chunks).request.length ≤ 9216 ∧
      (headLine (readAll chunks).request = headLine (arrived chunks) ∨
        8192 < (readAll chunks).request.length ∧
          (readAll chunks).request <+: headLine (arrived chunks)) ∧
      (parseRequest (readAll chunks).request = parseRequest (headLine (readAll chunks).request) ∨
        ofUtf8Bytes? (readAll chunks).request = none ∧
          parseRequest (readAll chunks).request = ("", "")) ∧
      ∀ (events : List ProcessEvent) (id : Nat) (c : WebConnection) (status body : String)
        (head : Bool) (rest : List UInt8),
        (Process.after settings events).connections[id]? = some c →
        c.phase = .answered status body →
        Http.read head (utf8Bytes (httpResponse status body) ++ rest) =
          some (⟨utf8Bytes status, responseHeaders body, if head then [] else utf8Bytes body⟩,
            if head then utf8Bytes body ++ rest else rest) := by
  refine ⟨?_, headLine_readAll hfinished, ?_, ?_⟩
  · exact RequestRead.length_le chunks hchunks (by simp) (by simp)
  · cases htext : ofUtf8Bytes? (readAll chunks).request with
    | some text =>
        left
        exact (parseRequest_headLine htext).symm
    | none =>
        right
        refine ⟨rfl, ?_⟩
        rw [parseRequest, htext]
        rfl
  · intro events id c status body head rest hc hphase
    have hstatus := answered_status (Process.answers_after settings events id c status body hc hphase)
    rw [httpResponse_eq_write]
    exact Http.read_write (responseOf_wellFormed hstatus body) head rest

/-- A reload request in two reads, the cut between the carriage return and the line feed. -/
def splitReload : List (List UInt8) :=
  [utf8Bytes "POST /-/reload?now HTTP/1.1\r", utf8Bytes "\nhost: a\r\n\r\n"]

theorem client_understood_splitReload :
    parseRequest (readAll splitReload).request = ("POST", "/-/reload") ∧
      (readAll splitReload).request.length ≤ 9216 := by
  have hfinished : (readAll splitReload).finished = true := by decide +kernel
  have hread := client_understood (⟨"prometheus.yml", true⟩ : ProcessSettings twoFilesDeps)
    splitReload (by decide +kernel) hfinished
  exact ⟨by decide +kernel, hread.1⟩

end PromScrape
