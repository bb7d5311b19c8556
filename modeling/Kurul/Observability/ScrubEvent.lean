import Kurul.Encoding.Utf16

/-! What is taken out of an error event before it is sent. One scrubber serves the API and one the web app; they
differ in what they make of the URL of a request. -/
namespace Kurul.Observability

open Encoding (Unit16 toUnit)

abbrev Text := List Unit16

/-- The values of the fields that no scrubber looks into are of any type. A field that is absent is `undefined`. -/
structure Request (α : Type) where
  url : Option Text
  query_string : Option α
  cookies : Option α
  data : Option α
  headers : Option (List (Text × α))
  others : String → Option α

structure User (α : Type) where
  id : Option α
  others : String → Option α

structure ErrorEvent (α : Type) where
  request : Option (Request α)
  user : Option (User α)
  others : String → Option α

def ascii (text : String) : Text := text.toList.map fun c => toUnit c.toNat

def apiScrubbedHeaders : List Text :=
  [ascii "cookie", ascii "set-cookie", ascii "authorization", ascii "proxy-authorization"]

def webScrubbedHeaders : List Text := [ascii "cookie", ascii "set-cookie", ascii "authorization"]

def questionMark : Unit16 := toUnit 0x3f

/-- The part of a URL before its first question mark. -/
def withoutQuery (url : Text) : Text :=
  match url.idxOf? questionMark with
  | none => url
  | some queryStart => url.take queryStart

section Scrubbers

variable {α : Type} (toLowerCase : Text → Text)

def keptHeaders (scrubbed : List Text) (headers : List (Text × α)) : List (Text × α) :=
  headers.filter fun header => !scrubbed.contains (toLowerCase header.1)

def scrubRequest (request : Request α) : Request α where
  url := request.url
  query_string := none
  cookies := none
  data := none
  headers := request.headers.map (keptHeaders toLowerCase apiScrubbedHeaders)
  others := request.others

def scrubWebRequest (request : Request α) : Request α where
  url := request.url.map withoutQuery
  query_string := none
  cookies := none
  data := none
  headers := request.headers.map (keptHeaders toLowerCase webScrubbedHeaders)
  others := request.others

/-- Of the user nothing is kept but the id. -/
def scrubUser (user : User α) : User α where
  id := user.id
  others _ := none

def scrubEvent (event : ErrorEvent α) : ErrorEvent α := { event with
  request := event.request.map (scrubRequest toLowerCase)
  user := event.user.map scrubUser }

def scrubWebEvent (event : ErrorEvent α) : ErrorEvent α := { event with
  request := event.request.map (scrubWebRequest toLowerCase)
  user := event.user.map scrubUser }

end Scrubbers

section Content

variable {α : Type} (toLowerCase : Text → Text)

/-- Equal, or with a query each and the same text before it. -/
def SameUrl (url other : Text) : Prop :=
  url = other ∨ questionMark ∈ url ∧ questionMark ∈ other ∧ withoutQuery url = withoutQuery other

def SameHeader (header other : Text × α) : Prop :=
  header.1 = other.1 ∧ (toLowerCase header.1 ∉ webScrubbedHeaders → header.2 = other.2)

structure SameRequest (request other : Request α) : Prop where
  url : Option.Rel SameUrl request.url other.url
  headers : Option.Rel (List.Forall₂ (SameHeader toLowerCase)) request.headers other.headers
  others : request.others = other.others

/-- Equal but for the user's content in the request and the fields of the user. -/
structure SameButContent (event other : ErrorEvent α) : Prop where
  request : Option.Rel (SameRequest toLowerCase) event.request other.request
  user : Option.Rel (fun user other => user.id = other.id) event.user other.user
  others : event.others = other.others

/-- Neither scrubber lets content through, and scrubbing again changes nothing. -/
structure Hidden (event other : ErrorEvent α) : Prop where
  api : scrubEvent toLowerCase event = scrubEvent toLowerCase other
  web : scrubWebEvent toLowerCase event = scrubWebEvent toLowerCase other
  apiOnce : scrubEvent toLowerCase (scrubEvent toLowerCase event) = scrubEvent toLowerCase event
  webOnce : scrubWebEvent toLowerCase (scrubWebEvent toLowerCase event) = scrubWebEvent toLowerCase event

end Content

section Proofs

variable {α : Type} {toLowerCase : Text → Text} {event other : ErrorEvent α} {request request' : Request α}
  {url url' : Text}

theorem idxOf?_take {text : Text} {unit : Unit16} {index : Nat} (found : text.idxOf? unit = some index) :
    unit ∉ text.take index := by
  induction text generalizing index with
  | nil => cases found
  | cons first rest ih =>
      rw [List.idxOf?_cons] at found
      split at found
      · cases found
        simp
      · rename_i other
        obtain ⟨later, inner, rfl⟩ := Option.map_eq_some_iff.mp found
        rw [List.take_succ_cons, List.mem_cons, not_or]
        exact ⟨fun same => other (by simp [same]), ih inner⟩

theorem notMem_withoutQuery (url : Text) : questionMark ∉ withoutQuery url := by
  unfold withoutQuery
  split
  · rename_i none_
    simpa using none_
  · rename_i found
    exact idxOf?_take found

theorem withoutQuery_of_notMem (clear : questionMark ∉ url) : withoutQuery url = url := by
  unfold withoutQuery
  have none_ : url.idxOf? questionMark = none := by simpa using clear
  rw [none_]

theorem withoutQuery_once (url : Text) : withoutQuery (withoutQuery url) = withoutQuery url :=
  withoutQuery_of_notMem (notMem_withoutQuery url)

theorem SameUrl.without (same : SameUrl url url') : withoutQuery url = withoutQuery url' := by
  rcases same with rfl | ⟨_, _, same⟩
  · rfl
  · exact same

theorem keptHeaders_once (scrubbed : List Text) (headers : List (Text × α)) :
    keptHeaders toLowerCase scrubbed (keptHeaders toLowerCase scrubbed headers) =
      keptHeaders toLowerCase scrubbed headers := by
  rw [keptHeaders, keptHeaders, List.filter_filter]
  simp

/-- A list that scrubs these headers leaves nothing to tell the two apart. -/
theorem keptHeaders_same {scrubbed : List Text} {headers headers' : List (Text × α)}
    (covers : ∀ name ∈ webScrubbedHeaders, name ∈ scrubbed)
    (same : List.Forall₂ (SameHeader toLowerCase) headers headers') :
    keptHeaders toLowerCase scrubbed headers = keptHeaders toLowerCase scrubbed headers' := by
  induction same with
  | nil => rfl
  | @cons header header' rest rest' here _ ih =>
      obtain ⟨name, value⟩ := here
      unfold keptHeaders at ih ⊢
      by_cases gone : toLowerCase header.1 ∈ scrubbed
      · have gone' : toLowerCase header'.1 ∈ scrubbed := name ▸ gone
        rw [List.filter_cons_of_neg (by simpa using gone), List.filter_cons_of_neg (by simpa using gone'), ih]
      · have stays : toLowerCase header'.1 ∉ scrubbed := name ▸ gone
        have equal : header = header' := Prod.ext name (value fun listed => gone (covers _ listed))
        rw [List.filter_cons_of_pos (by simpa using gone), List.filter_cons_of_pos (by simpa using stays), ih, equal]

theorem api_covers : ∀ name ∈ webScrubbedHeaders, name ∈ apiScrubbedHeaders := by decide

theorem map_of_rel {β γ : Type} {R : β → β → Prop} {a b : Option β} {f : β → γ} (same : Option.Rel R a b)
    (equal : ∀ x y, R x y → f x = f y) : a.map f = b.map f := by
  cases same with
  | none => rfl
  | some same => exact congrArg some (equal _ _ same)

theorem scrubRequest_same (same : SameRequest toLowerCase request request') :
    scrubRequest toLowerCase request = scrubRequest toLowerCase request' ↔ request.url = request'.url := by
  constructor
  · intro equal
    have urls := congrArg Request.url equal
    exact urls
  · intro urls
    unfold scrubRequest
    rw [urls, map_of_rel same.headers fun _ _ => keptHeaders_same api_covers, same.others]

theorem scrubWebRequest_same (same : SameRequest toLowerCase request request') :
    scrubWebRequest toLowerCase request = scrubWebRequest toLowerCase request' := by
  unfold scrubWebRequest
  rw [map_of_rel same.url fun _ _ => SameUrl.without,
    map_of_rel same.headers fun _ _ => keptHeaders_same fun _ listed => listed, same.others]

theorem scrubRequest_once (request : Request α) :
    scrubRequest toLowerCase (scrubRequest toLowerCase request) = scrubRequest toLowerCase request := by
  unfold scrubRequest
  simp only [Option.map_map, Function.comp_def, keptHeaders_once]

theorem scrubWebRequest_once (request : Request α) :
    scrubWebRequest toLowerCase (scrubWebRequest toLowerCase request) = scrubWebRequest toLowerCase request := by
  unfold scrubWebRequest
  simp only [Option.map_map, Function.comp_def, keptHeaders_once, withoutQuery_once]

theorem scrubUser_same {user user' : User α} (same : user.id = user'.id) : scrubUser user = scrubUser user' := by
  rw [scrubUser, scrubUser, same]

def requestUrl (event : ErrorEvent α) : Option Text := event.request.bind Request.url

theorem map_scrubRequest {a b : Option (Request α)} (same : Option.Rel (SameRequest toLowerCase) a b) :
    a.map (scrubRequest toLowerCase) = b.map (scrubRequest toLowerCase) ↔ a.bind Request.url = b.bind Request.url := by
  cases same with
  | none => simp
  | some same => simpa using scrubRequest_same same

theorem scrubEvent_same (same : SameButContent toLowerCase event other) :
    scrubEvent toLowerCase event = scrubEvent toLowerCase other ↔ requestUrl event = requestUrl other := by
  rw [requestUrl, requestUrl, ← map_scrubRequest same.request, scrubEvent, scrubEvent, ErrorEvent.mk.injEq,
    map_of_rel same.user fun _ _ => scrubUser_same, same.others]
  simp

theorem scrubWebEvent_same (same : SameButContent toLowerCase event other) :
    scrubWebEvent toLowerCase event = scrubWebEvent toLowerCase other := by
  rw [scrubWebEvent, scrubWebEvent, map_of_rel same.request fun _ _ => scrubWebRequest_same,
    map_of_rel same.user fun _ _ => scrubUser_same, same.others]

theorem scrubEvent_once (event : ErrorEvent α) :
    scrubEvent toLowerCase (scrubEvent toLowerCase event) = scrubEvent toLowerCase event := by
  unfold scrubEvent
  simp only [Option.map_map, Function.comp_def, scrubRequest_once]
  rfl

theorem scrubWebEvent_once (event : ErrorEvent α) :
    scrubWebEvent toLowerCase (scrubWebEvent toLowerCase event) = scrubWebEvent toLowerCase event := by
  unfold scrubWebEvent
  simp only [Option.map_map, Function.comp_def, scrubWebRequest_once]
  rfl

end Proofs

/-- Of two events that differ in content alone: nothing of it is left in what is sent exactly where their URLs
are the same, query and all, for the API sends the URL as it is. -/
theorem hidden_iff {α : Type} (toLowerCase : Text → Text) (event other : ErrorEvent α)
    (same : SameButContent toLowerCase event other) :
    Hidden toLowerCase event other ↔ requestUrl event = requestUrl other := by
  constructor
  · exact fun hidden => (scrubEvent_same same).mp hidden.api
  · intro urls
    exact ⟨(scrubEvent_same same).mpr urls, scrubWebEvent_same same, scrubEvent_once event, scrubWebEvent_once event⟩

/-- A search from the board, as the API saw it. -/
def searchEvent (query : String) : ErrorEvent Text where
  request := some {
    url := some (ascii "/boards/1/tasks" ++ questionMark :: ascii query)
    query_string := some (ascii query)
    cookies := none
    data := none
    headers := some [(ascii "Cookie", ascii query), (ascii "accept", ascii "*/*")]
    others _ := none }
  user := some ⟨some (ascii "u1"), fun _ => none⟩
  others _ := none

def asciiLower (text : Text) : Text :=
  text.map fun unit => if 0x41 ≤ unit.val ∧ unit.val ≤ 0x5a then toUnit (unit.val + 0x20) else unit

theorem searchEvents_same : SameButContent asciiLower (searchEvent "q=ada") (searchEvent "q=bob") where
  request := by
    have cookie : asciiLower (ascii "Cookie") ∈ webScrubbedHeaders := by decide
    refine .some ⟨.some (Or.inr ⟨by decide, by decide, by decide⟩), .some ?_, rfl⟩
    exact .cons ⟨rfl, fun kept => absurd cookie kept⟩ (.cons ⟨rfl, fun _ => rfl⟩ .nil)
  user := .some rfl
  others := rfl

theorem hidden_iff_search : Hidden asciiLower (searchEvent "q=ada") (searchEvent "q=bob") ↔
    requestUrl (searchEvent "q=ada") = requestUrl (searchEvent "q=bob") :=
  hidden_iff asciiLower _ _ searchEvents_same

theorem search_shows : SameButContent asciiLower (searchEvent "q=ada") (searchEvent "q=bob") ∧
    ¬Hidden asciiLower (searchEvent "q=ada") (searchEvent "q=bob") := by
  refine ⟨searchEvents_same, fun hidden => ?_⟩
  have urls := (scrubEvent_same searchEvents_same).mp hidden.api
  have differ : requestUrl (searchEvent "q=ada") ≠ requestUrl (searchEvent "q=bob") := by decide
  exact differ urls

end Kurul.Observability
