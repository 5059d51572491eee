import ContentDiscovery.Directories
import ContentDiscovery.Links
import ContentDiscovery.Origins
import ContentDiscovery.PkarrNames

/-!
# Pages of the gateway

The handlers of `iroh-link-gateway/src/lib.rs` and `pkarr_redirect.rs`, from the routes down to
`collection_entry`: a file of the collection, the `index.html` of a directory or its listing.
`Gateway` collects what the handlers get from the network and the caches.
-/

namespace ContentDiscovery

open Http Origins Dns

/-- `MAX_COLLECTION_ROOT_BYTES`. -/
def MAX_COLLECTION_ROOT_BYTES : ℕ := 1024 * 1024

/-- `INDEX_FILE`: the file a directory serves instead of its listing. -/
def INDEX_FILE : Str := "index.html".toList

/-- `Caching::redirect_status`. -/
def Caching.redirectStatus : Caching → StatusCode
  | Immutable => 301
  | Revalidate => 302

/-- `Root::at`, under another route. -/
def Root.under (encoded base : Str) (caching : Caching) : Root := ⟨encoded, base, caching⟩

/-- `Uri::query`: what is after the first question mark. -/
def Origins.Uri.query (uri : Uri) : Option Str :=
  uri.pathAndQuery.bind fun text => (Str.splitOnce '?' text).map Prod.snd

namespace Pages

/-- `has_flag`: the query sets `name`, as `?name` or `?name=...`. -/
def hasFlag (query : Option Str) (name : Str) : Bool :=
  query.any fun query => (query.splitOn '&').any fun pair =>
    (Str.stripPrefix name pair).any fun rest => rest = [] ∨ rest.head? = some '='

/-! ## Entries of a collection -/

/-- What a request for an entry is answered with. -/
inductive Answer where
  /-- `serve_blob` of a file of the collection, with the name to save it under -/
  | file (name : Str) (hash : Hash) (download : Option Str)
  /-- a redirect, with its `Location` and `Cache-Control` -/
  | redirect (status : StatusCode) (location cacheControl : Str)
  /-- `listing`, with sizes or not, and whether links keep `?listing` -/
  | listing (dir : Str) (entries : Entries) (withSizes listingFlag : Bool)
  | error (error : HttpError)

/-- The path that an URL path is for. -/
def pathOf (urlPath : Str) : Str := (Str.stripPrefix ['/'] urlPath).getD urlPath

/-- Some name is below the path. -/
def isDirectory (collection : Collection) (path : Str) : Bool :=
  collection.any fun entry => path ++ ['/'] <+: entry.1

/-- The directory that a path is for. -/
def dirOf (path : Str) : Str :=
  if path = [] ∨ path.getLast? = some '/' then path else path ++ ['/']

/-- The first entry with a name. -/
def findName (name : Str) (entries : List (Str × Hash)) : Option Hash :=
  (entries.find? fun entry => entry.1 = name).map Prod.snd

/-- The name that a file is saved under. -/
def fileName (path : Str) : Str :=
  match Str.rsplitOnce '/' path with
  | none => path
  | some (_, file) => file

/-- The part of `collection_entry` about directories. -/
def serveDir (root : Root) (collection : Collection) (slash : Bool) (dir : Str)
    (query : Option Str) : Answer :=
  match Entries.new dir collection with
  | none => .error ⟨404, "path not found in collection".toList⟩
  | some entries =>
    let listingFlag := hasFlag query "listing".toList
    match if listingFlag then none else findName INDEX_FILE entries.files with
    | some hash =>
      if slash then
        .file (dir ++ INDEX_FILE) hash
          (if hasFlag query "download".toList then some INDEX_FILE else none)
      else
        .redirect root.caching.redirectStatus
          (match query with
            | none => root.link dir
            | some query => root.link dir ++ '?' :: query)
          root.caching.header
    | none => .listing dir entries (hasFlag query "sizes".toList) listingFlag

/-- `collection_entry`: the file at an URL path in a collection, or the directory there. -/
def collectionEntry (root : Root) (collection : Collection) (urlPath : Str) (query : Option Str) :
    Answer :=
  let slash : Bool := urlPath.getLast? = some '/'
  let path := pathOf urlPath
  match if isDirectory collection path then none else findName path collection with
  | some hash =>
    .file path hash (if hasFlag query "download".toList then some (fileName path) else none)
  | none => serveDir root collection slash (dirOf path) query

/-! ## Handlers -/

/-- What the handlers get from the network and the caches. -/
structure Gateway (Name : Type) where
  /-- `hints.add_from_query`, unless it fails -/
  addFromQuery : Hash → Option Str → Option HttpError
  /-- `collection` -/
  collection : Hash → Except HttpError Collection
  /-- the size that `source` finds -/
  source : Hash → Except HttpError ℕ
  /-- `collection_on_connection`, in time -/
  collectionOnConnection : Hash → Option Collection
  /-- the packet of a key, cached or resolved -/
  packet : PkarrKey → Except HttpError (Dns.Packet Name)
  /-- `Name::to_string` -/
  toStr : Name → Str

/-- What a handler does. -/
inductive Page where
  /-- it calls `collection_entry` -/
  | entry (root : Root) (collection : Collection) (urlPath : Str) (query : Option Str)
  /-- it serves the blob of the hash itself -/
  | blob (caching : Caching) (hash : Hash) (download : Option Str)
  /-- it explains how providers are found -/
  | debug
  /-- it sends the client to another host -/
  | redirect (location : Str)
  | error (error : HttpError)
  /-- it panics -/
  | panicked

section

variable {Name : Type} (z : Z32) (gateway : Gateway Name)

/-- `serve_root`. -/
def serveRoot (root : Root) (hash : Hash) (slash : Bool) (query : Option Str) : Page :=
  match gateway.addFromQuery hash query with
  | some error => .error error
  | none =>
    if hasFlag query "debug".toList then .debug
    else
      let urlPath := if slash then ['/'] else []
      let download := hasFlag query "download".toList
      if ¬ download ∧ hasFlag query "tree".toList then
        match gateway.collection hash with
        | .error error => .error error
        | .ok collection => .entry root collection urlPath query
      else
        match gateway.source hash with
        | .error error => .error error
        | .ok size =>
          match if ¬ download ∧ 32 ≤ size ∧ size % 32 = 0 ∧ size ≤ MAX_COLLECTION_ROOT_BYTES then
            gateway.collectionOnConnection hash else none with
          | some collection => .entry root collection urlPath query
          | none =>
            .blob root.caching hash (if download then some (z.encode hash.toList) else none)

/-- `serve_path`. -/
def servePath (root : Root) (hash : Hash) (path : Str) (query : Option Str) : Page :=
  match gateway.addFromQuery hash query with
  | some error => .error error
  | none =>
    if hasFlag query "debug".toList then .debug
    else
      match gateway.collection hash with
      | .error error => .error error
      | .ok collection =>
        .entry root collection ('/' :: (Str.stripPrefix ['/'] path).getD path) query

/-- `blob`. -/
def blob (encoded : Str) (query : Option Str) (subdomain : Bool) : Page :=
  match parseHash z encoded with
  | none => .error ⟨StatusCode.BAD_REQUEST, "invalid z-base-32 BLAKE3 hash".toList⟩
  | some hash => serveRoot z gateway (Root.new encoded subdomain) hash subdomain query

/-- `collection_path`. -/
def collectionPath (encoded path : Str) (query : Option Str) (subdomain : Bool) : Page :=
  match parseHash z encoded with
  | none => .error ⟨StatusCode.BAD_REQUEST, "invalid z-base-32 BLAKE3 hash".toList⟩
  | some hash => servePath gateway (Root.new encoded subdomain) hash path query

/-- `collection_root`. -/
def collectionRoot (encoded : Str) (query : Option Str) (subdomain : Bool) : Page :=
  collectionPath z gateway encoded [] query subdomain

/-- `pkarr_redirect::redirect`. -/
def redirect (uri : Uri) (subdomain : Bool) : Page :=
  match Str.stripPrefix "/pkarr/".toList uri.path with
  -- `expect("routed under /pkarr/")`
  | none => .panicked
  | some rest =>
    let encoded := (segment rest).1
    let path := '/' :: (segment rest).2.getD []
    match parseZ32Bytes z encoded with
    | none => .error ⟨StatusCode.BAD_REQUEST, "invalid z-base-32 Pkarr public key".toList⟩
    | some key =>
      if hasFlag uri.query "debug".toList then .debug
      else
        match gateway.packet key with
        | .error error => .error error
        | .ok packet =>
          match target gateway.toStr packet encoded with
          | none => .error ⟨422, "no supported apex HTTPS target".toList⟩
          | some authority =>
            match contentHash z authority with
            | some hash =>
              let base := if subdomain then [] else "/pkarr/".toList ++ encoded
              let root := Root.under encoded base .Revalidate
              match Percent.decode (path.dropWhile fun c => c = '/') with
              | none => .error ⟨StatusCode.BAD_REQUEST, "path is not valid UTF-8".toList⟩
              | some path =>
                if path = [] then
                  -- `/pkarr/{key}` has no slash; a subdomain's root is always `/`
                  serveRoot z gateway root hash (subdomain || rest.contains '/') uri.query
                else servePath gateway root hash path uri.query
            | none =>
              .redirect (match uri.query with
                | none => "https://".toList ++ authority ++ path
                | some query => "https://".toList ++ authority ++ path ++ '?' :: query)

/-- A handler with the parameters of its route, percent-decoded by the router. -/
def handle (handler : Handler) (params : List Str) (request : Origins.Request) : Page :=
  match handler, params.mapM Percent.decode with
  | .redirect, _ => redirect z gateway (request.originalUri.getD request.uri) request.subdomain
  | .blob, some [encoded] => blob z gateway encoded request.uri.query request.subdomain
  | .collectionRoot, some [encoded] =>
    collectionRoot z gateway encoded request.uri.query request.subdomain
  | .collectionPath, some [encoded, path] =>
    collectionPath z gateway encoded path request.uri.query request.subdomain
  | _, _ => .error ⟨StatusCode.BAD_REQUEST, []⟩

/-- The page of a request, from the routes. -/
def page (parseUri : Str → Option Uri) (request : Incoming) : Page :=
  let request := prepared z parseUri request
  match ROUTES.findSome? (matchRoute request.uri.path) with
  | none => .error ⟨404, []⟩
  | some (handler, params) =>
    if request.method = .GET ∨ request.method = .HEAD then handle z gateway handler params request
    else .error ⟨405, []⟩

end

end Pages

end ContentDiscovery
