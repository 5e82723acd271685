import YastCore.Lib.Lines
import YastCore.Value.Index
import YastCore.Value.Path

/-!
# The resolver agent

The cache of `ResolverAgent` between its map and the file `/etc/resolv.conf`: `fillCache`, `flushCache`
and `Write`. A map is its entries in the order in which `flushCache` runs through them.
-/

namespace YastCore.Resolver

open Lines YCPValue

/-! ### Keys -/

def searchKey : Text := ascii "search"

def nameserverKey : Text := ascii "nameserver"

def domainKey : Text := ascii "domain"

def sortlistKey : Text := ascii "sortlist"

def optionsKey : Text := ascii "options"

def resolverKeys : List Text := [searchKey, nameserverKey, domainKey, sortlistKey, optionsKey]

/-- The keys with a list of words on one line. -/
def isListKey (key : Text) : Bool := key == searchKey || key == sortlistKey || key == optionsKey

/-- The pairs of key and tag of the header. -/
def headers : List (Text × Text) :=
  [(ascii "modified", ascii "# Modified_by:"), (ascii "backup", ascii "# Backup:"),
    (ascii "process", ascii "# Process: "), (ascii "process_id", ascii "# Process_id: "),
    (ascii "script", ascii "# Script:"), (ascii "saveto", ascii "# Saveto:"), (ascii "info", ascii "# Info:")]

def findKey (tag : Text) : Option Text := (headers.find? fun h => h.2.isPrefixOf tag).map (·.1)

def allowedInfoKey (key : Text) : Bool := headers.any fun h => h.1 == key

def allowedKey (key : Text) : Bool := resolverKeys.contains key

/-! ### Reading -/

/-- The local variables of `fillCache`, and the cache it fills. -/
structure Filling where
  cache : List (YCPValue × YCPValue)
  processing_info : Bool
  info_buf : Text
  last_key : Option Text

def Filling.start : Filling := ⟨[], false, [], none⟩

/-- The last info key is stored without the newline at its end. -/
def Filling.storeInfo (st : Filling) : Filling :=
  match st.last_key with
  | some key => { st with cache := mapInsert (string key) (string st.info_buf.dropLast) st.cache }
  | none => st

/-- The value of a line, from `vptr` on. The loop over a list steps over the end of the string where
no whitespace ends its last word; there is no value then. -/
def readValue (cache : List (YCPValue × YCPValue)) (key vptr : Text) : Option YCPValue :=
  if isListKey key then (words [] vptr).map fun ret => list (ret.map string)
  else if key = nameserverKey then
    let value :=
      match mapValue cache (string key) with
      | list l => l
      | _ => []
    some (list (value ++ [string (firstWord vptr)]))
  else if key = domainKey then some (string (firstWord vptr))
  else some null

/-- A line without its comment. Lines without a key and a value are skipped. -/
def fillEntry (st : Filling) (lbuf : Text) : Option Filling :=
  match nextWhitespace lbuf with
  | [] => some st
  | c :: lptr =>
    if c = newline then some st
    else
      let key := firstWord lbuf
      (readValue st.cache key (eatWhitespaces lptr)).map fun value =>
        { st with cache := mapInsert (string key) value st.cache }

/-- One turn of the loop of `fillCache`. -/
def fillLine (st : Filling) (lbuf : Text) : Option Filling :=
  if 35 ∈ lbuf then
    if (ascii "### BEGIN INFO").isPrefixOf lbuf then some { st with processing_info := true }
    else if (ascii "### END INFO").isPrefixOf lbuf then
      some { st.storeInfo with processing_info := false }
    else
      match findKey lbuf with
      | some key =>
        let info_buf :=
          match lbuf.dropWhile (· != 58) with
          | [] => st.info_buf
          | _ :: info => eatWhitespaces info
        some { st.storeInfo with info_buf := info_buf, last_key := some key }
      | none =>
        let info_buf := if st.processing_info then st.info_buf ++ lbuf else st.info_buf
        fillEntry { st with info_buf := info_buf } (lbuf.takeWhile (· != 35))
  else fillEntry st lbuf

/-- `fgets` reads one character less than `lbufsize`. -/
def lineLength : Nat := 1023

/-- The loop of `fillCache`; each line is looked at as a C string. -/
def fillLines (st : Filling) : List Text → Option Filling
  | [] => some st
  | lbuf :: rest => (fillLine st (cut lbuf)).bind fun st => fillLines st rest

/-! ### Writing -/

/-- Why the loop of `flushCache` stops. -/
inductive Stop where
  | badKey
  | badValue (key : Text)
  | badSize (key : Text)
  | emptyList (key : Text)
deriving DecidableEq

/-- The elements that are strings, up to the size of the list. -/
def listStrings (l : List YCPValue) : List Text :=
  (l.take (listSize l).toNat).filterMap fun
    | string s => some s
    | _ => none

/-- A key and the words after it. -/
def line (key : Text) (texts : List Text) : Text := key ++ (texts.flatMap (32 :: ·) ++ [newline])

/-- One turn of the loop of `flushCache`. -/
def flushEntry : YCPValue × YCPValue → Except Stop Text
  | (string skey, value) =>
    if isListKey skey then
      match value with
      | list l =>
        if listSize l < 0 then .error (.badSize skey)
        else if listSize l = 0 then .error (.emptyList skey)
        else .ok (line skey ((listStrings l).map cut))
      | _ => .error (.badValue skey)
    else if skey = nameserverKey then
      match value with
      | list l => .ok ((listStrings l).flatMap fun s => line skey [cut s])
      | _ => .error (.badValue skey)
    else if skey = domainKey then
      match value with
      | string s => .ok (if s = [] then [] else line skey [cut s])
      | _ => .error (.badValue skey)
    else .ok []
  | _ => .error .badKey

/-- The loop of `flushCache`: what it writes and why it stops. -/
def flushLoop : List (YCPValue × YCPValue) → Text × Option Stop
  | [] => ([], none)
  | e :: cache =>
    match flushEntry e with
    | .ok text => (text ++ (flushLoop cache).1, (flushLoop cache).2)
    | .error stop => ([], some stop)

/-- A line of the header; only strings are written. -/
def headerLine (cache : List (YCPValue × YCPValue)) (h : Text × Text) : Text :=
  match mapValue cache (string h.1) with
  | string info => h.2 ++ 32 :: cut info ++ [newline]
  | _ => []

/-- The header that `flushCache` writes on demand. -/
def headerText (cache : List (YCPValue × YCPValue)) : Text :=
  ascii "### BEGIN INFO\n#\n" ++ headers.flatMap (headerLine cache) ++ ascii "#\n### END INFO\n#\n"

/-! ### The agent -/

structure Agent where
  localCache : List (YCPValue × YCPValue)
  cacheDirty : Bool
  cacheValid : Bool
  writeHeader : Bool

/-- `fillCache` on a file that may not exist. -/
def fillCache (a : Agent) (file : Option Text) : Option (Agent × Int) :=
  if a.cacheValid then some (a, 0)
  else
    match file with
    | none => some (a, -1)
    | some content =>
      (fillLines .start (pieces lineLength [] content)).map fun st =>
        ({ a with localCache := st.cache, cacheValid := true }, 0)

/-- What `flushCache` writes. -/
def flushText (a : Agent) : Text :=
  (if a.writeHeader then headerText a.localCache else []) ++ (flushLoop a.localCache).1

/-- `flushCache`: the agent, the file and the return value. -/
def flushCache (a : Agent) (writable : Bool) (file : Option Text) : Agent × Option Text × Int :=
  if !a.cacheValid || !a.cacheDirty then (a, file, 0)
  else if !writable then (a, file, -1)
  else
    let retval := if (flushLoop a.localCache).2 = some .badKey then -1 else 0
    ({ a with cacheDirty := false }, some (flushText a), retval)

/-- `ResolverAgent::Write`; the path is given by its components. -/
def write (a : Agent) (writable : Bool) (file : Option Text) (path : List Text) (value : YCPValue) :
    Option (Agent × Option Text × Bool) :=
  (fillCache a file).map fun (a, _) =>
    match path with
    | [] =>
      if value.isNull || value.isVoid then
        let flushed := flushCache a writable file
        (flushed.1, flushed.2.1, flushed.2.2 == 0)
      else
        match value with
        | map m => ({ a with localCache := m, cacheDirty := true }, file, true)
        | _ => (a, file, false)
    | key :: _ =>
      if allowedKey (cut key) || allowedInfoKey (cut key) then
        ({ a with localCache := mapInsert (string (cut key)) value a.localCache, cacheDirty := true },
          file, true)
      else if cut key = ascii "write_header" then
        match value with
        | boolean b => ({ a with writeHeader := b, cacheDirty := true }, file, true)
        | _ => (a, file, false)
      else (a, file, false)

end YastCore.Resolver
