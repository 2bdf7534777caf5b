import Mathlib.Data.List.Basic
import Mathlib.Tactic.IntervalCases

/-! # HTTP headers of `CHttpUtil`

`walleve/http/httputil.cpp` writes request and response headers and parses
them back. A header is read line by line with `getline`, which splits the
input at each `\n` and keeps the `\r`; the first line is the request or
status line, the next ones are fields up to an empty line or a bare `\r`. Keys
and values in the URL query and in cookies are percent-encoded.

The text of a `std::string` is its bytes as characters below 256. A
`std::string::size_type` is a 64-bit number: `find` returns `npos` when it
finds nothing, and a length computed by subtraction wraps, so that `substr`
then takes the rest of the string. A `std::map` is its entries in the order of
its comparator, and `MAPIKeyValue` compares keys as `strcasecmp` does.

`PercentDecode` reads a hex digit with the macro `FROMHEX`, whose digit
branch returns the character's code instead of its value, so an escape with a
decimal digit decodes to the wrong byte (`percentDecode_percentEncode_bang`).
`ParseStatusLine` looks for the second space from the start of the line
instead of after the first one, so the status it reports is the rest of the
line (`parseStatusLine_status`).
-/

namespace Multiverse.Walleve

namespace CHttpUtil

/-! ## Strings -/

/-- `std::string::npos`. -/
def npos : Nat := 2 ^ 64 - 1

/-- `a - b` in `size_t`. -/
def sizeSub (a b : Nat) : Nat := (a + 2 ^ 64 - b) % 2 ^ 64

/-- `s.find(c, start)`. -/
def find (s : List Char) (c : Char) (start : Nat) : Nat :=
  match (s.drop start).findIdx? (· == c) with
  | some i => start + i
  | none => npos

/-- `s.find(pat, start)` for a string `pat`. -/
def findStr (s pat : List Char) (start : Nat) : Nat :=
  match (s.drop start).tails.findIdx? (pat.isPrefixOf ·) with
  | some i => start + i
  | none => npos

/-- `s.substr(pos, n)`; `n` may be `npos`, or any length past the end. -/
def substr (s : List Char) (pos n : Nat) : List Char := (s.drop pos).take n

/-- `s[i]`, which is the terminating `\0` at `s.size()`. -/
def charAt (s : List Char) (i : Nat) : Char := s.getD i (Char.ofNat 0)

/-- `std::isspace` in the "C" locale, as `boost::trim` uses it. -/
def isspace (c : Char) : Bool :=
  c == ' ' || c == '\t' || c == '\n' || c == Char.ofNat 11 || c == Char.ofNat 12 || c == '\r'

/-- `boost::trim`. -/
def trim (s : List Char) : List Char := ((s.dropWhile isspace).reverse.dropWhile isspace).reverse

/-- `boost::to_lower`. -/
def toLower (s : List Char) : List Char := s.map Char.toLower

/-- The decimal text `operator<<` writes for a number. -/
def decimal (n : Int) : List Char := (toString n).toList

/-- `std::string::operator<`: bytes compared as `unsigned char`. -/
def lexLess : List Char → List Char → Bool
  | [], [] => false
  | [], _ :: _ => true
  | _ :: _, [] => false
  | a :: as, b :: bs => decide (a < b) || (a == b && lexLess as bs)

/-- `_iless`: `strcasecmp(a.c_str(), b.c_str()) < 0`, which stops at a `\0`. -/
def iless (a b : List Char) : Bool :=
  lexLess (toLower (a.takeWhile (· != Char.ofNat 0))) (toLower (b.takeWhile (· != Char.ofNat 0)))

/-! ## Maps -/

section Map

variable {α : Type} (lt : List Char → List Char → Bool)

/-- Keys the comparator cannot tell apart are one key of the map. -/
def keyEq (a b : List Char) : Bool := !lt a b && !lt b a

/-- `m.find(k)`. -/
def findKey (m : List (List Char × α)) (k : List Char) : Option α :=
  (m.find? fun e => keyEq lt e.1 k).map Prod.snd

/-- `m.count(k)`. -/
def count (m : List (List Char × α)) (k : List Char) : Bool := (findKey lt m k).isSome

/-- `m[k] = v`: the value of a key held is replaced, a new key goes in order. -/
def setKey : List (List Char × α) → List Char → α → List (List Char × α)
  | [], k, v => [(k, v)]
  | (k', v') :: m, k, v =>
    if lt k k' then (k, v) :: (k', v') :: m
    else if lt k' k then (k', v') :: setKey m k v
    else (k', v) :: m

/-- `m.insert(make_pair(k, v))`: a key held keeps its value. -/
def insertKey : List (List Char × α) → List Char → α → List (List Char × α)
  | [], k, v => [(k, v)]
  | (k', v') :: m, k, v =>
    if lt k k' then (k, v) :: (k', v') :: m
    else if lt k' k then (k', v') :: insertKey m k v
    else (k', v') :: m

end Map

/-- `MAPKeyValue`. -/
abbrev MAPKeyValue := List (List Char × List Char)

/-- `MAPIKeyValue`, keyed under `iless`. -/
abbrev MAPIKeyValue := List (List Char × List Char)

/-- `mapHeader[k]` read without inserting: the empty string when absent. -/
def header (mapHeader : MAPIKeyValue) (k : String) : List Char := (findKey iless mapHeader k.toList).getD []

/-! ## Percent encoding -/

/-- `hexc`. -/
def hexc : List Char := "0123456789ABCDEF".toList

/-- `strResv`. -/
def strResv : List Char := "-_.~".toList

/-- One character of `PercentEncode`: letters, digits and the reserved
characters pass, a space becomes `+`, any other byte `%XY`. -/
def percentEncodeChar (strResvExt : List Char) (c : Char) : List Char :=
  if c.isAlphanum || strResv.contains c || strResvExt.contains c then [c]
  else if c = ' ' then ['+']
  else ['%', hexc.getD ((c.toNat % 256) >>> 4) ' ', hexc.getD ((c.toNat % 256) &&& 0x0F) ' ']

/-- `PercentEncode(strDecoded, strEncoded, strResvExt)`. -/
def percentEncode (strDecoded strResvExt : List Char) : List Char :=
  strDecoded.flatMap (percentEncodeChar strResvExt)

/-- `FROMHEX(c)`: the digit branch returns `(c)`, the character itself. -/
def fromHex (c : Char) : Int :=
  if '0' ≤ c ∧ c ≤ '9' then c.toNat
  else if 'a' ≤ c ∧ c ≤ 'f' then c.toNat - 'a'.toNat + 10
  else if 'A' ≤ c ∧ c ≤ 'F' then c.toNat - 'A'.toNat + 10
  else -1

/-- `(char)((h << 4) | l)`. -/
def byteOf (h l : Int) : Char := Char.ofNat (((h.toNat <<< 4) ||| l.toNat) % 256)

/-- `PercentDecode(strEncoded, strDecoded)`: `none` where it returns false. -/
def percentDecode : List Char → Option (List Char)
  | [] => some []
  | c :: rest =>
    if c = '%' then
      match rest with
      | c1 :: c2 :: rest =>
        if 0 ≤ fromHex c1 ∧ 0 ≤ fromHex c2 then (percentDecode rest).map (byteOf (fromHex c1) (fromHex c2) :: ·)
        else none
      | _ => none
    else if c = '+' then (percentDecode rest).map (' ' :: ·)
    else (percentDecode rest).map (c :: ·)

/-- `ParseEncodedPair(strEncoded, strKey, strValue)`. -/
def parseEncodedPair (strEncoded : List Char) : Option (List Char × List Char) :=
  if strEncoded.isEmpty then none
  else
    let eq := find strEncoded '=' 0
    match percentDecode (substr strEncoded 0 eq) with
    | none => none
    | some strKey =>
      if eq ≠ npos then (percentDecode (substr strEncoded (eq + 1) npos)).map fun strValue => (strKey, strValue)
      else some (strKey, [])

/-- The pairs of a query or a cookie, each parsed and set in the map in turn. -/
def parsePairs (lt : List Char → List Char → Bool) :
    List (List Char) → List (List Char × List Char) → Option (List (List Char × List Char))
  | [], m => some m
  | piece :: pieces, m =>
    match parseEncodedPair piece with
    | none => none
    | some (strKey, strValue) => parsePairs lt pieces (setKey lt m strKey strValue)

/-- `ParseRequestQuery(strQuery, mapQuery)`: the pieces between the `&`s. -/
def parseRequestQuery (strQuery : List Char) (mapQuery : MAPKeyValue) : Option MAPKeyValue :=
  parsePairs lexLess (strQuery.splitOn '&') mapQuery

/-- `ParseCookie(strCookie, mapCookie)`: the pieces between the `;`s, each
after the first with its leading spaces skipped. -/
def parseCookie (strCookie : List Char) (mapCookie : MAPIKeyValue) : Option MAPIKeyValue :=
  match strCookie.splitOn ';' with
  | [] => some mapCookie
  | piece :: pieces => parsePairs iless (piece :: pieces.map (·.dropWhile (· == ' '))) mapCookie

/-- `ParseUrl(strEncoded, strUrl, mapQuery)`: the path, and the query after `?`. -/
def parseUrl (strEncoded : List Char) (mapQuery : MAPKeyValue) : Option (List Char × MAPKeyValue) :=
  let sp := find strEncoded '?' 0
  match percentDecode (substr strEncoded 0 sp) with
  | none => none
  | some strUrl =>
    if sp ≠ npos ∧ sp + 1 ≠ strEncoded.length then
      (parseRequestQuery (substr strEncoded (sp + 1) npos) mapQuery).map fun mapQuery => (strUrl, mapQuery)
    else some (strUrl, mapQuery)

/-! ## Lines -/

/-- `ParseFieldLine(strLine, mapHeader)`: the key before the first `:`, trimmed
and in lower case, and the trimmed value; a repeated `Set-Cookie` is appended
after `;;`, any other repeated key keeps its first value. -/
def parseFieldLine (strLine : List Char) (mapHeader : MAPIKeyValue) : Option MAPIKeyValue :=
  let sp := find strLine ':' 0
  if sp = npos then none
  else
    let strKey := toLower (trim (substr strLine 0 sp))
    let strValue := trim (substr strLine (sp + 1) npos)
    if strKey ≠ "set-cookie".toList ∨ !count iless mapHeader "set-cookie".toList then
      some (insertKey iless mapHeader strKey strValue)
    else some (setKey iless mapHeader strKey (header mapHeader "set-cookie" ++ ";;".toList ++ strValue))

/-- The loop over the field lines, up to an empty line or a bare `\r`; past
the end of the input `getline` reads an empty line. -/
def parseFieldLines : List (List Char) → MAPIKeyValue → Option MAPIKeyValue
  | [], mapHeader => some mapHeader
  | line :: lines, mapHeader =>
    if line.isEmpty ∨ line = ['\r'] then some mapHeader
    else
      match parseFieldLine line mapHeader with
      | none => none
      | some mapHeader => parseFieldLines lines mapHeader

/-- `ParseCommandLine(strLine, mapHeader, mapQuery)`. -/
def parseCommandLine (strLine : List Char) (mapHeader : MAPIKeyValue) (mapQuery : MAPKeyValue) :
    Option (MAPIKeyValue × MAPKeyValue) :=
  let sp := find strLine ' ' 0
  let method := substr strLine 0 sp
  let mapHeader := setKey iless mapHeader "method".toList method
  if (method ≠ "POST".toList ∧ method ≠ "GET".toList) ∨ sp = npos then none
  else
    let start := sp + 1
    let sp := find strLine ' ' start
    if sp = npos ∨ charAt strLine start ≠ '/' then none
    else
      match parseUrl (substr strLine start (sizeSub sp start)) mapQuery with
      | none => none
      | some (strUrl, mapQuery) =>
        let mapHeader := setKey iless mapHeader "url".toList strUrl
        if substr strLine (sp + 1) 5 ≠ "HTTP/".toList then none
        else
          let start := sp + 6
          let sp := find strLine '\r' start
          if sp = npos then none
          else some (setKey iless mapHeader "version".toList (substr strLine start (sizeSub sp start)), mapQuery)

/-- `ParseStatusLine(strLine, mapHeader)`. The second `find` starts at 0. -/
def parseStatusLine (strLine : List Char) (mapHeader : MAPIKeyValue) : Option MAPIKeyValue :=
  if substr strLine 0 5 ≠ "HTTP/".toList then none
  else
    let start := 5
    let sp := find strLine ' ' start
    if sp = npos then none
    else
      let mapHeader := setKey iless mapHeader "version".toList (substr strLine start (sizeSub sp start))
      let start := sp + 1
      let sp := find strLine ' ' 0
      if sp = npos then none
      else
        let mapHeader := setKey iless mapHeader "status".toList (substr strLine start (sizeSub sp start))
        some (setKey iless mapHeader "statusmsg".toList (substr strLine (sp + 1) npos))

/-! ## Cookies of a response -/

/-- `CHttpCookie`, without `ptExpires`, which reads the clock. -/
structure CHttpCookie where
  strName : List Char
  strValue : List Char
  strDomain : List Char
  strPath : List Char
  fSecure : Bool
  fHttpOnly : Bool
  deriving DecidableEq, Repr

namespace CHttpCookie

/-- `SetNull()`. -/
def null : CHttpCookie := ⟨[], [], [], [], false, false⟩

/-- `IsNull()`. -/
def isNull (cookie : CHttpCookie) : Bool := cookie.strName.isEmpty

/-- One attribute of `LoadFromResp`; `Expires` and `Max-Age` only set
`ptExpires`. -/
def loadAttr (cookie : CHttpCookie) (strAttr : List Char) : Option CHttpCookie :=
  let eq := find strAttr '=' 0
  if eq ≠ npos then
    let strAttrKey := toLower (substr strAttr 0 eq)
    let strAttrValue := substr strAttr (eq + 1) npos
    if strAttrKey = "domain".toList then some { cookie with strDomain := strAttrValue }
    else if strAttrKey = "path".toList then
      (percentDecode strAttrValue).map fun strPath => { cookie with strPath }
    else some cookie
  else
    let strAttr := toLower strAttr
    if strAttr = "secure".toList then some { cookie with fSecure := true }
    else if strAttr = "httponly".toList then some { cookie with fHttpOnly := true }
    else some cookie

/-- The attribute loop of `LoadFromResp`. -/
def loadAttrs (cookie : CHttpCookie) : List (List Char) → Option CHttpCookie
  | [] => some cookie
  | strAttr :: attrs =>
    match cookie.loadAttr strAttr with
    | none => none
    | some cookie => loadAttrs cookie attrs

/-- `LoadFromResp(strFromResp)`: the name and value before the first `;`,
then the attributes, each with its leading spaces skipped. -/
def loadFromResp (strFromResp : List Char) : Option CHttpCookie :=
  match strFromResp.splitOn ';' with
  | [] => none
  | pair :: attrs =>
    match parseEncodedPair pair with
    | none => none
    | some (strName, strValue) =>
      loadAttrs { null with strName, strValue } (attrs.map (·.dropWhile (· == ' ')))

/-- `CHttpCookie(strFromResp)`: a cookie that does not load is null. -/
def ofResp (strFromResp : List Char) : CHttpCookie := (loadFromResp strFromResp).getD null

/-- `BuildSetCookie()`, for a cookie without an expiry. -/
def buildSetCookie (cookie : CHttpCookie) : List Char :=
  percentEncode cookie.strName [] ++ ['='] ++
    (if cookie.strValue.isEmpty then [] else percentEncode cookie.strValue []) ++
    (if cookie.strDomain.isEmpty then [] else "; Domain=".toList ++ cookie.strDomain) ++
    (if cookie.strPath.isEmpty then [] else "; Path=".toList ++ percentEncode cookie.strPath ['/']) ++
    (if cookie.fSecure then "; Secure".toList else []) ++
    (if cookie.fHttpOnly then "; HttpOnly".toList else [])

end CHttpCookie

/-- `MAPCookie`, keyed under `iless`. -/
abbrev MAPCookie := List (List Char × CHttpCookie)

/-- `ParseSetCookie(strCookie, mapCookie)`: the cookies between the `;;`s; a
null or repeated one fails. -/
def parseSetCookieLoop (strCookie : List Char) (fuel : Nat) (start : Nat) (mapCookie : MAPCookie) :
    Option MAPCookie :=
  let sp := findStr strCookie ";;".toList start
  let cookie := CHttpCookie.ofResp (substr strCookie start (if sp ≠ npos then sp - start else npos))
  if cookie.isNull ∨ count iless mapCookie cookie.strName then none
  else
    let mapCookie := insertKey iless mapCookie cookie.strName cookie
    if sp = npos then some mapCookie
    else
      match fuel with
      | 0 => none
      | fuel + 1 => parseSetCookieLoop strCookie fuel (sp + 2) mapCookie

/-- `ParseSetCookie`: each round starts past a `;;`, so the length is enough fuel. -/
def parseSetCookie (strCookie : List Char) (mapCookie : MAPCookie) : Option MAPCookie :=
  parseSetCookieLoop strCookie strCookie.length 0 mapCookie

/-! ## Whole headers -/

/-- `WALLEVE_VERSION_STRING`. -/
def WALLEVE_VERSION_STRING : List Char := "0.10".toList

/-- `ParseRequestHeader(is, mapHeader, mapQuery, mapCookie)` on the text of `is`. -/
def parseRequestHeader (text : List Char) : Option (MAPIKeyValue × MAPKeyValue × MAPIKeyValue) :=
  match text.splitOn '\n' with
  | [] => none
  | line :: lines =>
    match parseCommandLine line [] [] with
    | none => none
    | some (mapHeader, mapQuery) =>
      match parseFieldLines lines mapHeader with
      | none => none
      | some mapHeader =>
        if count iless mapHeader "cookie".toList then
          (parseCookie (header mapHeader "cookie") []).map fun mapCookie => (mapHeader, mapQuery, mapCookie)
        else some (mapHeader, mapQuery, [])

/-- `ParseResponseHeader(is, mapHeader, mapCookie)` on the text of `is`. -/
def parseResponseHeader (text : List Char) : Option (MAPIKeyValue × MAPCookie) :=
  match text.splitOn '\n' with
  | [] => none
  | line :: lines =>
    match parseStatusLine line [] with
    | none => none
    | some mapHeader =>
      match parseFieldLines lines mapHeader with
      | none => none
      | some mapHeader =>
        if count iless mapHeader "set-cookie".toList then
          (parseSetCookie (header mapHeader "set-cookie") []).map fun mapCookie => (mapHeader, mapCookie)
        else some (mapHeader, [])

/-- The `key=value` pairs of a query or a cookie, each percent-encoded. -/
def buildPairs (sep : List Char) : List (List Char × List Char) → List Char
  | [] => []
  | (k, v) :: m => sep ++ percentEncode k [] ++ ['='] ++ percentEncode v [] ++ buildPairs sep m

/-- `BuildUrl(mapHeader, mapQuery)`. -/
def buildUrl (mapHeader : MAPIKeyValue) (mapQuery : MAPKeyValue) : List Char :=
  let strUrl := percentEncode (header mapHeader "url") ['/']
  let strUrl := if strUrl.isEmpty then ['/'] else strUrl
  match mapQuery with
  | (k, v) :: m =>
    if header mapHeader "method" = "GET".toList then
      strUrl ++ ['?'] ++ percentEncode k [] ++ ['='] ++ percentEncode v [] ++ buildPairs ['&'] m
    else strUrl
  | [] => strUrl

/-- `BuildCookie(mapCookie)`. -/
def buildCookie : MAPIKeyValue → List Char
  | [] => []
  | (k, v) :: m => percentEncode k [] ++ ['='] ++ percentEncode v [] ++ buildPairs "; ".toList m

/-- A header line `Key: value\r\n`. -/
def fieldLine (k : String) (v : List Char) : List Char := k.toList ++ ": ".toList ++ v ++ "\r\n".toList

/-- `BuildRequestHeader(mapHeader, mapQuery, mapCookie, nContentLength)`. -/
def buildRequestHeader (mapHeader : MAPIKeyValue) (mapQuery : MAPKeyValue) (mapCookie : MAPIKeyValue)
    (nContentLength : Nat) : List Char :=
  header mapHeader "method" ++ [' '] ++ buildUrl mapHeader mapQuery ++ " HTTP/1.1\r\n".toList ++
    fieldLine "HOST" (header mapHeader "host") ++
    (if count iless mapHeader "user-agent".toList then fieldLine "User-Agent" (header mapHeader "user-agent")
     else fieldLine "User-Agent" ("Walleve/".toList ++ WALLEVE_VERSION_STRING)) ++
    (if count iless mapHeader "authorization".toList then fieldLine "Authorization" (header mapHeader "authorization")
     else []) ++
    (if mapCookie.isEmpty then [] else fieldLine "Cookie" (buildCookie mapCookie)) ++
    (if nContentLength ≠ 0 then
      (if count iless mapHeader "content-type".toList then fieldLine "Content-Type" (header mapHeader "content-type")
       else []) ++ fieldLine "Content-Length" (decimal nContentLength)
     else []) ++
    fieldLine "Accept" (header mapHeader "accept") ++ fieldLine "Connection" (header mapHeader "connection") ++
    "\r\n".toList

/-- The reason phrases of `BuildResponseHeader`. -/
def statusText (nStatusCode : Int) : List Char :=
  (if nStatusCode = 200 then "OK"
   else if nStatusCode = 201 then "Created"
   else if nStatusCode = 202 then "Accepted"
   else if nStatusCode = 203 then "Non-Authoritative Information"
   else if nStatusCode = 204 then "No Content"
   else if nStatusCode = 400 then "Bad Request"
   else if nStatusCode = 401 then "Authorization Required"
   else if nStatusCode = 403 then "Forbidden"
   else if nStatusCode = 404 then "Not Found"
   else if nStatusCode = 405 then "Method Not Allowed"
   else if nStatusCode = 406 then "Not Acceptable"
   else if nStatusCode = 410 then "Gone"
   else if nStatusCode = 500 then "Internal Server Error"
   else if nStatusCode = 503 then "Service Unavailable"
   else "").toList

/-- `BuildResponseHeader(nStatusCode, mapHeader, mapCookie, nContentLength)`;
`strDate` is `FormatRFC1123DayTime` of the clock. -/
def buildResponseHeader (nStatusCode : Int) (strDate : List Char) (mapHeader : MAPIKeyValue) (mapCookie : MAPCookie)
    (nContentLength : Nat) : List Char :=
  "HTTP/1.1 ".toList ++ decimal nStatusCode ++ [' '] ++ statusText nStatusCode ++ "\r\n".toList ++
    fieldLine "Date" strDate ++
    (if count iless mapHeader "server".toList then fieldLine "Server" (header mapHeader "server")
     else fieldLine "Server" ("Walleve/".toList ++ WALLEVE_VERSION_STRING)) ++
    (mapCookie.flatMap fun e => fieldLine "Set-Cookie" e.2.buildSetCookie) ++
    (if count iless mapHeader "connection".toList then fieldLine "Connection" (header mapHeader "connection")
     else "Connection: Close\r\n".toList) ++
    (if count iless mapHeader "content-type".toList ∧ header mapHeader "content-type" ≠ [] then
      fieldLine "Content-Type" (header mapHeader "content-type") ++
        (if header mapHeader "content-type" = "text/event-stream".toList then "Cache-Control: no-cache\r\n".toList
         else [])
     else []) ++
    fieldLine "Content-Length" (decimal nContentLength) ++
    (if nStatusCode = 401 then "WWW-Authenticate: Basic realm=\"walleve\"\r\n".toList else []) ++
    "\r\n".toList

/-! ## Reading back -/

theorem find_append_cons {p : List Char} {c : Char} {start : Nat} (hstart : start ≤ p.length)
    (hc : c ∉ p.drop start) (r : List Char) : find (p ++ c :: r) c start = p.length := by
  have hnone : (p.drop start).findIdx? (· == c) = none := by
    refine List.findIdx?_eq_none_iff.mpr fun x hx => ?_
    rw [beq_eq_false_iff_ne]
    rintro rfl
    exact hc hx
  unfold find
  rw [List.drop_append_of_le_length hstart, List.findIdx?_append, hnone]
  simp only [List.findIdx?_cons, beq_self_eq_true, if_true, Option.none_or, Option.map_some, Nat.zero_add,
    List.length_drop]
  omega

theorem findKey_status (version status statusmsg : List Char) :
    findKey iless (setKey iless (setKey iless (setKey iless [] "version".toList version) "status".toList status)
      "statusmsg".toList statusmsg) "status".toList = some status :=
  rfl

theorem findKey_parseStatusLine_status {v : List Char} (hv : ' ' ∉ v) {r : List Char}
    (hr : (v ++ r).length + 6 ≤ npos) :
    ∃ mapHeader, parseStatusLine ("HTTP/".toList ++ v ++ ' ' :: r) [] = some mapHeader ∧
      findKey iless mapHeader "status".toList = some r := by
  have hp : ' ' ∉ "HTTP/".toList ++ v := by simpa using hv
  have hsp : ∀ start ≤ 5, find ("HTTP/".toList ++ v ++ ' ' :: r) ' ' start = 5 + v.length := by
    intro start hstart
    rw [find_append_cons (by simp; omega) (fun h => hp (List.mem_of_mem_drop h))]
    simp
    omega
  have hne : 5 + v.length ≠ npos := by
    simp only [List.length_append] at hr
    omega
  have hlen : sizeSub (5 + v.length) (5 + v.length + 1) = npos := by
    simp only [sizeSub, npos]
    omega
  have hrest : substr ("HTTP/".toList ++ v ++ ' ' :: r) (5 + v.length + 1) npos = r := by
    have hsplit : "HTTP/".toList ++ v ++ ' ' :: r = ("HTTP/".toList ++ v ++ [' ']) ++ r := by simp
    have hdrop : 5 + v.length + 1 = ("HTTP/".toList ++ v ++ [' ']).length := by
      simp
      omega
    rw [substr, hsplit, hdrop, List.drop_left, List.take_of_length_le]
    simp only [List.length_append] at hr
    omega
  have hhttp : substr ("HTTP/".toList ++ v ++ ' ' :: r) 0 5 = "HTTP/".toList := by
    simp [substr]
  refine ⟨_, ?_, findKey_status (substr ("HTTP/".toList ++ v ++ ' ' :: r) 5 (sizeSub (5 + v.length) 5)) r r⟩
  simp only [parseStatusLine, hhttp, ne_eq, not_true_eq_false, if_false, hsp 5 (Nat.le_refl 5), hsp 0 (Nat.zero_le _), hne,
    hlen, hrest]

/-! ## Percent decoding -/

theorem fromHex_of_digit {c : Char} (h1 : '0' ≤ c) (h2 : c ≤ '9') : fromHex c = c.toNat := by
  simp [fromHex, h1, h2]

theorem fromHex_hexc {d : Nat} (h1 : 10 ≤ d) (h2 : d < 16) : fromHex (hexc.getD d ' ') = d := by
  interval_cases d <;> decide

theorem byteOf_fromHex_hexc {c : Char} (hc : c.toNat < 256) (hhi : 10 ≤ c.toNat / 16) (hlo : 10 ≤ c.toNat % 16) :
    byteOf (fromHex (hexc.getD ((c.toNat % 256) >>> 4) ' ')) (fromHex (hexc.getD ((c.toNat % 256) &&& 0x0F) ' ')) = c := by
  have hshift : (c.toNat % 256) >>> 4 = c.toNat / 16 := by
    rw [Nat.mod_eq_of_lt hc, Nat.shiftRight_eq_div_pow]
  have hand : (c.toNat % 256) &&& 0x0F = c.toNat % 16 := by
    rw [Nat.mod_eq_of_lt hc, show (0x0F : Nat) = 2 ^ 4 - 1 from rfl, Nat.and_two_pow_sub_one_eq_mod]
  have hor : (c.toNat / 16) <<< 4 ||| c.toNat % 16 = c.toNat := by
    rw [← Nat.shiftLeft_add_eq_or_of_lt (Nat.mod_lt _ (by decide)), Nat.shiftLeft_eq]
    omega
  rw [hshift, hand, fromHex_hexc hhi (by omega), fromHex_hexc hlo (Nat.mod_lt _ (by decide)), byteOf]
  simp only [Int.toNat_natCast, hor, Nat.mod_eq_of_lt hc, Char.ofNat_toNat]

/-- A character `PercentDecode` reads back from `PercentEncode`: one passed
through, a space, or a byte escaped with two letters. -/
def DecodesBack (strResvExt : List Char) (c : Char) : Prop :=
  c.toNat < 256 ∧ ((c.isAlphanum || strResv.contains c || strResvExt.contains c) = true ∨ c = ' ' ∨
    10 ≤ c.toNat / 16 ∧ 10 ≤ c.toNat % 16)

theorem percentDecode_cons_of_ne {c : Char} (hpct : c ≠ '%') (hplus : c ≠ '+') (rest : List Char) :
    percentDecode (c :: rest) = (percentDecode rest).map (c :: ·) := by
  rw [percentDecode.eq_def]
  simp [hpct, hplus]

theorem percentDecode_plus (rest : List Char) : percentDecode ('+' :: rest) = (percentDecode rest).map (' ' :: ·) := by
  rw [percentDecode.eq_def]
  simp

theorem percentDecode_escape {c1 c2 : Char} (h1 : 0 ≤ fromHex c1) (h2 : 0 ≤ fromHex c2) (rest : List Char) :
    percentDecode ('%' :: c1 :: c2 :: rest) = (percentDecode rest).map (byteOf (fromHex c1) (fromHex c2) :: ·) := by
  rw [percentDecode.eq_def]
  simp [h1, h2]

theorem percentDecode_percentEncodeChar {strResvExt : List Char} (hext : '%' ∉ strResvExt ∧ '+' ∉ strResvExt)
    {c : Char} (hc : DecodesBack strResvExt c) (rest : List Char) :
    percentDecode (percentEncodeChar strResvExt c ++ rest) = (percentDecode rest).map (c :: ·) := by
  obtain ⟨hlt, hc⟩ := hc
  by_cases hpass : (c.isAlphanum || strResv.contains c || strResvExt.contains c) = true
  · -- passed through: neither `%` nor `+` passes
    have hpct : c ≠ '%' := by
      rintro rfl
      simp [strResv, hext.1] at hpass
    have hplus : c ≠ '+' := by
      rintro rfl
      simp [strResv, hext.2] at hpass
    rw [percentEncodeChar, if_pos hpass, List.singleton_append, percentDecode_cons_of_ne hpct hplus]
  · rw [percentEncodeChar, if_neg hpass]
    rcases hc with hpass' | rfl | ⟨hhi, hlo⟩
    · exact absurd hpass' hpass
    · rw [if_pos rfl, List.singleton_append, percentDecode_plus]
    · have hspace : c ≠ ' ' := by
        rintro rfl
        simp at hhi
      have hhi' : 0 ≤ fromHex (hexc.getD ((c.toNat % 256) >>> 4) ' ') := by
        rw [Nat.mod_eq_of_lt hlt, Nat.shiftRight_eq_div_pow, fromHex_hexc hhi (by omega)]
        omega
      have hlo' : 0 ≤ fromHex (hexc.getD ((c.toNat % 256) &&& 0x0F) ' ') := by
        rw [Nat.mod_eq_of_lt hlt, show (0x0F : Nat) = 2 ^ 4 - 1 from rfl, Nat.and_two_pow_sub_one_eq_mod,
          fromHex_hexc hlo (Nat.mod_lt _ (by decide))]
        omega
      rw [if_neg hspace, List.cons_append, List.cons_append, List.cons_append, List.nil_append,
        percentDecode_escape hhi' hlo', byteOf_fromHex_hexc hlt hhi hlo]

theorem percentDecode_percentEncode {strResvExt : List Char} (hext : '%' ∉ strResvExt ∧ '+' ∉ strResvExt) :
    ∀ {s : List Char}, (∀ c ∈ s, DecodesBack strResvExt c) → percentDecode (percentEncode s strResvExt) = some s
  | [], _ => rfl
  | c :: s, h => by
    rw [percentEncode, List.flatMap_cons, percentDecode_percentEncodeChar hext (h c List.mem_cons_self),
      ← percentEncode, percentDecode_percentEncode hext fun x hx => h x (List.mem_cons_of_mem c hx)]
    rfl

/-- `!` is escaped as `%21`, whose digits `FROMHEX` reads as the codes of `2`
and `1`: the byte read back is `(0x32 << 4 | 0x31) & 0xFF`, the digit `1`. -/
theorem percentDecode_percentEncode_bang : percentDecode (percentEncode ['!'] []) = some ['1'] := by
  rfl

/-- A `GET` request for the path `/!` is read back with the path `/1`, and
`PercentDecode(PercentEncode("!"))` is `"1"`. -/
theorem parseRequestHeader_buildRequestHeader_url_bang :
    let mapHeader : MAPIKeyValue := [("method".toList, "GET".toList), ("url".toList, "/!".toList)]
    (parseRequestHeader (buildRequestHeader mapHeader [] [] 0)).map (fun r => header r.1 "url") =
        some "/1".toList ∧
      percentDecode (percentEncode ['!'] []) = some ['1'] := by
  decide +kernel

/-- A response with status 200 is read back with the status `200 OK\r`: the
rest of the status line. -/
theorem parseResponseHeader_buildResponseHeader_status :
    (parseResponseHeader (buildResponseHeader 200 "Tue, 10 Nov 2026 00:00:00 GMT".toList [] [] 0)).map
        (fun r => header r.1 "status") =
      some "200 OK\r".toList := by
  rfl

end CHttpUtil

end Multiverse.Walleve
