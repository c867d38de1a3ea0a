import ForkliftSafety.Library.RelativePath
import ForkliftSafety.Library.Text

/-! `MjpegStreamServer`: how `HttpSession::route` answers a request. `none` is an exception, which
nothing between `route` and the thread that runs the `io_context` catches. -/
namespace ForkliftSafety
open Text

structure ViewerServerConfig where
  enabled : Bool := false
  host : String := "0.0.0.0"
  port : ℕ := 8088
  webRoot : String := "web"
  jpegQuality : ℤ := 75
  targetFps : ℤ := 15
  deriving DecidableEq, Repr

/-- The loop of `query_param` over the pieces between the ampersands. -/
def queryLoop (key : List Char) : List (List Char) → Option (List Char)
  | [] => some []
  | pair :: rest =>
    match find pair '=' with
    | none => queryLoop key rest
    | some eq =>
      (substrN pair 0 eq).bind fun name =>
        if name = key then substr pair (eq + 1) else queryLoop key rest

def queryParam (target key : List Char) : Option (List Char) :=
  match find target '?' with
  | none => some []
  | some qpos => (substr target (qpos + 1)).bind fun query => queryLoop key (getlines '&' query)

def pathOnly (target : List Char) : Option (List Char) :=
  match find target '?' with
  | none => some target
  | some qpos => substrN target 0 qpos

/-- The lambda `ends` of `content_type_for`: a comparison of the end of `path` with `suf`. -/
def ends (path suf : List Char) : Option Bool :=
  if path.length ≥ suf.length then
    (substrN path (path.length - suf.length) suf.length).map fun tail => decide (tail = suf)
  else some false

def contentTypes : List (String × String) :=
  [(".html", "text/html; charset=utf-8"),
    (".js", "application/javascript; charset=utf-8"),
    (".css", "text/css; charset=utf-8"),
    (".png", "image/png"),
    (".svg", "image/svg+xml"),
    (".ico", "image/x-icon")]

/-- The chain of tests of `content_type_for` over a table of suffixes. -/
def contentTypeIn (path : List Char) : List (String × String) → Option String
  | [] => some "application/octet-stream"
  | (suf, ctype) :: rest =>
    (ends path suf.toList).bind fun hit => if hit then some ctype else contentTypeIn path rest

def contentTypeFor (path : List Char) : Option String := contentTypeIn path contentTypes

/-- `SharedState::cameras_json`. -/
def camerasJson (cameraOrder : List (List Char)) : List Char :=
  '[' :: [','].intercalate (cameraOrder.map fun camera => '"' :: camera ++ ['"']) ++ [']']

/-- The call with which `route` answers. -/
inductive RouteAction where
  | startMjpeg (camera : List Char)
  | startSse (camera : List Char)
  | sendString (body : List Char) (ctype : String)
  | sendFile (rel : List Char)
  | sendStatus (status : ℕ) (msg : List Char)
  deriving DecidableEq, Repr

def route (cameraOrder : List (List Char)) (target : List Char) : Option RouteAction :=
  (pathOnly target).bind fun path =>
    if path = "/stream".toList then
      (queryParam target "camera".toList).map .startMjpeg
    else if path = "/detections".toList then
      (queryParam target "camera".toList).map .startSse
    else if path = "/cameras".toList then
      some (.sendString (camerasJson cameraOrder) "application/json")
    else if path = "/".toList ∨ path = "/index.html".toList then
      some (.sendFile "index.html".toList)
    else if findStr "..".toList path ≠ none then
      some (.sendStatus 400 "bad path".toList)
    else (substr path 1).map .sendFile

structure HttpResponse where
  version : ℕ
  status : ℕ
  contentType : String
  body : List Char
  allowOrigin : Option String := none
  server : String := "forklift-safety"
  keepAlive : Bool := false
  deriving DecidableEq, Repr

def mjpegHeader : String :=
  "HTTP/1.1 200 OK\r\nServer: forklift-safety\r\n" ++
  "Cache-Control: no-cache, no-store, must-revalidate\r\nPragma: no-cache\r\n" ++
  "Connection: close\r\nAccess-Control-Allow-Origin: *\r\n" ++
  "Content-Type: multipart/x-mixed-replace; boundary=frame\r\n\r\n"

def sseHeader : String :=
  "HTTP/1.1 200 OK\r\nServer: forklift-safety\r\n" ++
  "Content-Type: text/event-stream\r\nCache-Control: no-cache\r\n" ++
  "Connection: close\r\nAccess-Control-Allow-Origin: *\r\n\r\n"

/-- What a client gets: a whole response, or the header of a stream that goes on for a camera. -/
inductive Reply where
  | whole (response : HttpResponse)
  | stream (header : String) (camera : List Char)
  | sse (header : String) (camera : List Char)
  deriving DecidableEq, Repr

section Respond
variable (cfg : ViewerServerConfig) (files : List Char → Option (List Char)) (version : ℕ)

def sendString (body : List Char) (ctype : String) : HttpResponse :=
  { version := version, status := 200, contentType := ctype, body := body, allowOrigin := some "*" }

def sendStatus (status : ℕ) (msg : List Char) : HttpResponse :=
  { version := version, status := status, contentType := "text/plain; charset=utf-8", body := msg }

/-- The path that `send_file` opens. -/
def openedPath (rel : List Char) : List Char := cfg.webRoot.toList ++ '/' :: rel

/-- `files` gives the contents of the paths that can be opened. -/
def sendFile (rel : List Char) : Option HttpResponse :=
  match files (openedPath cfg rel) with
  | none => some (sendStatus version 404 ("not found: ".toList ++ rel))
  | some contents => (contentTypeFor rel).map (sendString version contents)

def respond : RouteAction → Option Reply
  | .startMjpeg camera => some (.stream mjpegHeader camera)
  | .startSse camera => some (.sse sseHeader camera)
  | .sendString body ctype => some (.whole (sendString version body ctype))
  | .sendFile rel => (sendFile cfg files version rel).map .whole
  | .sendStatus status msg => some (.whole (sendStatus version status msg))

/-- A request from `route` to the response it leads to. -/
def handle (cameraOrder : List (List Char)) (target : List Char) : Option Reply :=
  (route cameraOrder target).bind (respond cfg files version)

end Respond

theorem queryLoop_isSome (key : List Char) (pairs : List (List Char)) :
    (queryLoop key pairs).isSome = true := by
  induction pairs with
  | nil => rfl
  | cons pair rest ih =>
    rw [queryLoop]
    cases heq : find pair '=' with
    | none => exact ih
    | some eq =>
      have hlt := find_lt heq
      have hvalue : substr pair (eq + 1) = some (pair.drop (eq + 1)) := substr_eq (by omega)
      simp only [substrN_zero, Option.bind_some, hvalue]
      split_ifs
      · rfl
      · exact ih

theorem queryParam_isSome (target key : List Char) : (queryParam target key).isSome = true := by
  unfold queryParam
  cases hq : find target '?' with
  | none => rfl
  | some qpos =>
    have hlt := find_lt hq
    have hquery : substr target (qpos + 1) = some (target.drop (qpos + 1)) :=
      substr_eq (by omega)
    simp only [hquery, Option.bind_some]
    exact queryLoop_isSome key _

/-- The value of a single parameter is read as it stands, up to the end of the target. -/
theorem queryParam_single {path key value : List Char} (hpath : '?' ∉ path) (hkey : '=' ∉ key)
    (hpiece : '&' ∉ key ++ '=' :: value) :
    queryParam (path ++ '?' :: (key ++ '=' :: value)) key = some value := by
  have hpieces : getlines '&' (key ++ '=' :: value) = [key ++ '=' :: value] :=
    getlines_of_notMem hpiece (by simp)
  rw [queryParam, find_append hpath]
  simp only [substr_after, Option.bind_some, hpieces, queryLoop, find_append hkey, substrN_before,
    if_true]

theorem ends_isSome (path suf : List Char) : (ends path suf).isSome = true := by
  unfold ends
  split_ifs with hlen
  · have htail : substr path (path.length - suf.length) =
        some (path.drop (path.length - suf.length)) := substr_eq (by omega)
    simp [substrN, htail]
  · rfl

theorem contentTypeIn_isSome (path : List Char) (table : List (String × String)) :
    (contentTypeIn path table).isSome = true := by
  induction table with
  | nil => rfl
  | cons entry table ih =>
    obtain ⟨suf, ctype⟩ := entry
    obtain ⟨hit, hhit⟩ := Option.isSome_iff_exists.mp (ends_isSome path suf.toList)
    rw [contentTypeIn, hhit, Option.bind_some]
    by_cases h : hit <;> simp [h, ih]

/-- The path ends before the first question mark, and is empty only when the target starts with
one. -/
theorem pathOnly_spec (target : List Char) :
    ∃ path, pathOnly target = some path ∧ (path = [] ↔ target = [] ∨ target.head? = some '?') := by
  unfold pathOnly
  cases hq : find target '?' with
  | none =>
    refine ⟨target, rfl, ?_⟩
    have hnone := find_eq_none_iff.mp hq
    constructor
    · exact Or.inl
    · rintro (hnil | hhead)
      · exact hnil
      · exact absurd (List.mem_of_head? hhead) hnone
  | some qpos =>
    refine ⟨target.take qpos, rfl, ?_⟩
    obtain ⟨hsplit, hfirst⟩ := find_eq_some hq
    cases htake : target.take qpos with
    | nil =>
      rw [htake] at hsplit
      simp only [true_iff]
      right
      rw [hsplit]
      rfl
    | cons c path =>
      rw [htake] at hsplit hfirst
      have hhead : target.head? = some c := by
        rw [hsplit]
        rfl
      have hne : c ≠ '?' := by
        rintro rfl
        exact hfirst List.mem_cons_self
      have hnil : target ≠ [] := by
        rintro rfl
        simp at hhead
      simp [hhead, hne, hnil]

/-- `route` throws on the empty path and on no other. -/
theorem route_eq_none_iff (cameraOrder : List (List Char)) (target : List Char) :
    route cameraOrder target = none ↔ target = [] ∨ target.head? = some '?' := by
  obtain ⟨path, hpath, hempty⟩ := pathOnly_spec target
  obtain ⟨camera, hcamera⟩ := Option.isSome_iff_exists.mp
    (queryParam_isSome target "camera".toList)
  rw [← hempty]
  simp only [route, hpath, Option.bind_some, hcamera, Option.map_some]
  by_cases hnil : path = []
  · subst hnil
    simp [findStr, substr]
  · have hrange : substr path 1 = some (path.drop 1) :=
      substr_eq (List.length_pos_of_ne_nil hnil)
    simp only [hrange, Option.map_some]
    split_ifs <;> simp [hnil]

section Answers
variable (cfg : ViewerServerConfig) (files : List Char → Option (List Char)) (version : ℕ)

theorem sendFile_isSome (rel : List Char) : (sendFile cfg files version rel).isSome = true := by
  unfold sendFile
  cases files (openedPath cfg rel) with
  | none => rfl
  | some contents =>
    rw [Option.isSome_map]
    exact contentTypeIn_isSome rel contentTypes

theorem respond_isSome (action : RouteAction) :
    (respond cfg files version action).isSome = true := by
  cases action with
  | sendFile rel =>
    rw [respond, Option.isSome_map]
    exact sendFile_isSome cfg files version rel
  | _ => rfl

end Answers

/-- A target that the HTTP parser delivers: one or more visible characters, no space. -/
structure RequestTarget where
  chars : List Char
  nonempty : chars ≠ []
  visible : ∀ c ∈ chars, 0x20 < c.toNat ∧ c.toNat ≠ 0x7f

/-- A request is answered exactly when its target does not start with a question mark. -/
theorem handle_answers_iff (cfg : ViewerServerConfig) (files : List Char → Option (List Char))
    (version : ℕ) (cameraOrder : List (List Char)) (target : RequestTarget) :
    (∃ reply, handle cfg files version cameraOrder target.chars = some reply) ↔
      target.chars.head? ≠ some '?' := by
  have hnone : handle cfg files version cameraOrder target.chars = none ↔
      target.chars.head? = some '?' := by
    rw [handle, Option.bind_eq_none_iff]
    constructor
    · intro h
      have hroute : route cameraOrder target.chars = none := by
        by_contra hsome
        obtain ⟨action, haction⟩ := Option.ne_none_iff_exists'.mp hsome
        have hreply := respond_isSome cfg files version action
        rw [h action haction] at hreply
        contradiction
      exact ((route_eq_none_iff _ _).mp hroute).resolve_left target.nonempty
    · intro hhead action haction
      rw [(route_eq_none_iff _ _).mpr (Or.inr hhead)] at haction
      contradiction
  rw [← Option.ne_none_iff_exists', ne_eq, hnone]

/-- A target of one question mark, on a server without cameras and files. -/
theorem questionMark_unanswered :
    ¬ ∃ reply, handle {} (fun _ => none) 11 [] (RequestTarget.chars
      ⟨['?'], by simp, by simp⟩) = some reply := by
  rintro ⟨reply, hreply⟩
  have hnone : handle {} (fun _ => none) 11 [] ['?'] = none := rfl
  rw [hnone] at hreply
  contradiction

/-- A file is asked for by the fixed name of the dashboard, or by a path without two dots in a row
and without its first character. -/
theorem route_sendFile {cameraOrder : List (List Char)} {target rel : List Char}
    (h : route cameraOrder target = some (.sendFile rel)) : ¬ ['.', '.'] <:+: rel := by
  obtain ⟨path, hpath, _⟩ := pathOnly_spec target
  simp only [route, hpath, Option.bind_some] at h
  split_ifs at h with hstream hdetections hcameras hindex hdots
  · simp at h
  · simp at h
  · simp at h
  · rw [Option.some.injEq, RouteAction.sendFile.injEq] at h
    rw [← h]
    decide
  · simp at h
  · rw [not_not, findStr_eq_none_iff] at hdots
    obtain ⟨rel', hrel, heq⟩ := Option.map_eq_some_iff.mp h
    rw [RouteAction.sendFile.injEq] at heq
    subst heq
    unfold substr at hrel
    split_ifs at hrel
    rw [Option.some.injEq] at hrel
    intro hinfix
    apply hdots
    rw [← hrel] at hinfix
    exact hinfix.trans (List.drop_suffix 1 path).isInfix

/-- Whatever file a request makes the server open, its path continues the web root by components
that lead to a place inside, and no beginning of them climbs above. -/
theorem sendFile_under_webRoot (cfg : ViewerServerConfig) (cameraOrder : List (List Char))
    (target : List Char) {rel : List Char} (h : route cameraOrder target = some (.sendFile rel)) :
    RelativePath.components (openedPath cfg rel) =
        RelativePath.components cfg.webRoot.toList ++ RelativePath.components rel ∧
      (RelativePath.normalise rel).isSome ∧
      ∀ cs, cs <+: RelativePath.components rel → (RelativePath.walk [] cs).isSome := by
  have hinside := RelativePath.normalise_of_not_infix (route_sendFile h)
  have hsome : (RelativePath.normalise rel).isSome := by
    rw [hinside]
    rfl
  refine ⟨List.splitOn_append_cons_self _ _, hsome, ?_⟩
  intro cs hcs
  exact RelativePath.walk_prefix hsome hcs

theorem slashes_under_webRoot :
    RelativePath.components (openedPath {} "/css//app.css".toList) =
        RelativePath.components "web".toList ++ RelativePath.components "/css//app.css".toList ∧
      (RelativePath.normalise "/css//app.css".toList).isSome ∧
      ∀ cs, cs <+: RelativePath.components "/css//app.css".toList →
        (RelativePath.walk [] cs).isSome :=
  sendFile_under_webRoot {} [] "//css//app.css?v=/../".toList (by decide)

end ForkliftSafety
