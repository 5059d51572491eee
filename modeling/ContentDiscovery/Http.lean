import ContentDiscovery.Str

/-!
# HTTP messages

What the gateway reads of a request and writes into a response, with the behaviour the
`http` crate documents for it. A body is a stream: chunks of bytes, then its end.
-/

namespace ContentDiscovery

namespace Http

/-- `Method`. -/
inductive Method where
  | GET
  | HEAD
  | OPTIONS
  /-- any other one -/
  | other (name : Str)
  deriving DecidableEq

/-- `StatusCode`. -/
abbrev StatusCode : Type := ℕ

namespace StatusCode

def OK : StatusCode := 200
def PARTIAL_CONTENT : StatusCode := 206
def NOT_MODIFIED : StatusCode := 304
def BAD_REQUEST : StatusCode := 400
def RANGE_NOT_SATISFIABLE : StatusCode := 416
def BAD_GATEWAY : StatusCode := 502
def GATEWAY_TIMEOUT : StatusCode := 504

end StatusCode

/-- `HeaderName`. -/
inductive HeaderName where
  | acceptRanges
  | cacheControl
  | contentDisposition
  | contentLength
  | contentRange
  | contentType
  | etag
  | ifNoneMatch
  | ifRange
  | range
  | xContentTypeOptions
  /-- any other one -/
  | other (name : Str)
  deriving DecidableEq

/-- `HeaderValue`. -/
abbrev HeaderValue : Type := List UInt8

/-- `HeaderValue::from_bytes`: no control characters, except tabs. -/
def HeaderValue.fromBytes (bytes : List UInt8) : Option HeaderValue :=
  if bytes.all fun b => (32 ≤ b ∧ b ≠ 127) || b == 9 then some bytes else none

/-- `HeaderValue::to_str`: visible ASCII characters, spaces and tabs. -/
def HeaderValue.toStr (value : HeaderValue) : Option Str :=
  if value.all fun b => (32 ≤ b ∧ b < 127) || b == 9 then
    some (value.map fun b => Char.ofNat b.toNat)
  else none

/-- `HeaderMap`: names may repeat. -/
abbrev HeaderMap : Type := List (HeaderName × HeaderValue)

namespace HeaderMap

/-- The values of a name. -/
def getAll (headers : HeaderMap) (name : HeaderName) : List HeaderValue :=
  (headers.filter (·.1 = name)).map (·.2)

/-- The first value of a name. -/
def get (headers : HeaderMap) (name : HeaderName) : Option HeaderValue :=
  (headers.getAll name).head?

/-- The name gets one more value. -/
def append (headers : HeaderMap) (name : HeaderName) (value : HeaderValue) : HeaderMap :=
  headers ++ [(name, value)]

/-- The name loses its values. -/
def remove (headers : HeaderMap) (name : HeaderName) : HeaderMap :=
  headers.filter (·.1 ≠ name)

/-- The name has this value only. -/
def insert (headers : HeaderMap) (name : HeaderName) (value : HeaderValue) : HeaderMap :=
  append (remove headers name) name value

variable {headers : HeaderMap} {name name' : HeaderName} {value : HeaderValue}

@[simp] theorem getAll_append :
    getAll (append headers name' value) name =
      getAll headers name ++ if name' = name then [value] else [] := by
  rw [getAll, getAll, append, List.filter_append, List.map_append]
  congr 1
  split <;> simp [*]

@[simp] theorem getAll_remove_self : getAll (remove headers name) name = [] := by
  rw [getAll, remove, List.filter_filter, List.filter_eq_nil_iff.mpr]
  · rfl
  · simp

@[simp] theorem getAll_remove_of_ne (h : name' ≠ name) :
    getAll (remove headers name') name = getAll headers name := by
  rw [getAll, getAll, remove, List.filter_filter]
  congr 2
  funext p
  by_cases hp : p.1 = name
  · simp [hp, h.symm]
  · simp [hp]

@[simp] theorem getAll_insert_self : getAll (insert headers name value) name = [value] := by
  simp [insert]

@[simp] theorem getAll_insert_of_ne (h : name' ≠ name) :
    getAll (insert headers name' value) name = getAll headers name := by
  simp [insert, h]

@[simp] theorem get_append :
    get (append headers name' value) name =
      (get headers name).or (if name' = name then some value else none) := by
  rw [get, get, getAll_append, List.head?_append]
  congr 1
  split <;> rfl

@[simp] theorem get_remove_self : get (remove headers name) name = none := by
  rw [get, getAll_remove_self, List.head?_nil]

@[simp] theorem get_remove_of_ne (h : name' ≠ name) :
    get (remove headers name') name = get headers name := by
  rw [get, get, getAll_remove_of_ne h]

end HeaderMap

/-- `std::io::Error`, as a body ends with it. -/
inductive IoError where
  /-- a deadline passed -/
  | elapsed
  /-- `Error::other` -/
  | other (text : Str)
  deriving DecidableEq

/-- `Body`: what a reader of the stream gets. -/
inductive Body where
  /-- bytes -/
  | yield (chunk : List UInt8) (rest : Body)
  /-- the end of the body -/
  | ended
  /-- an error instead of it -/
  | failed (error : IoError)
  /-- the end is not reached: the reader stops, or there is none -/
  | unfinished
  deriving DecidableEq

namespace Body

/-- The body ends without an error. -/
def Ends : Body → Prop
  | yield _ rest => Ends rest
  | ended => True
  | failed _ => False
  | unfinished => False

/-- The bytes of the body. -/
def bytes : Body → List UInt8
  | yield chunk rest => chunk ++ rest.bytes
  | ended => []
  | failed _ => []
  | unfinished => []

/-- One body after another, if the first one ends. -/
def andThen : Body → Body → Body
  | yield chunk rest, next => yield chunk (rest.andThen next)
  | ended, next => next
  | failed error, _ => failed error
  | unfinished, _ => unfinished

@[simp] theorem ends_yield (chunk : List UInt8) (rest : Body) :
    (yield chunk rest).Ends ↔ rest.Ends := Iff.rfl

@[simp] theorem ends_ended : ended.Ends := trivial

@[simp] theorem not_ends_failed (error : IoError) : ¬ (failed error).Ends := id

@[simp] theorem not_ends_unfinished : ¬ unfinished.Ends := id

theorem ends_andThen (body next : Body) :
    (body.andThen next).Ends ↔ body.Ends ∧ next.Ends := by
  induction body with
  | yield chunk rest ih => exact ih
  | ended => exact (and_iff_right trivial).symm
  | failed error => exact iff_of_false id fun h => h.1
  | unfinished => exact iff_of_false id fun h => h.1

theorem bytes_andThen {body : Body} (next : Body) (h : body.Ends) :
    (body.andThen next).bytes = body.bytes ++ next.bytes := by
  induction body with
  | yield chunk rest ih => rw [andThen, bytes, bytes, ih h, List.append_assoc]
  | ended => rfl
  | failed error => exact h.elim
  | unfinished => exact h.elim

end Body

/-- `Response`. -/
structure Response where
  /-- the status -/
  status : StatusCode
  /-- the headers -/
  headers : HeaderMap
  /-- the body -/
  body : Body

/-- `HttpError`: the status and the text of an error. -/
structure HttpError where
  /-- the status -/
  status : StatusCode
  /-- the text -/
  text : Str

namespace HttpError

/-- `HttpError::upstream`. -/
def upstream : HttpError :=
  ⟨StatusCode.BAD_GATEWAY, "provider lookup or transfer failed".toList⟩

/-- `HttpError::timeout`. -/
def timeout : HttpError :=
  ⟨StatusCode.GATEWAY_TIMEOUT, "provider lookup or transfer timed out".toList⟩

end HttpError

end Http

end ContentDiscovery
