import LeadLag.TokenFeed.Message
import Mathlib.Data.List.MinMax
import Mathlib.Data.String.Basic

/-!
# The book over HTTP (rest_quote.cpp:28-104, types.hpp:30-36)

`fetch_order_book` takes the last bid and the last ask of the reply. `parse` is
nlohmann::json's parser, without a value where it throws, and the two clock
readings are parameters. A price without a value is NaN.
-/

namespace LeadLag.Book
open LeadLag.Core
open LeadLag.TokenFeed (Price stodPrice)

structure BookQuote where
  localMonoNs : ℤ := -1
  localWallMs : ℤ := -1
  tokenId : String := ""
  bestBid : Option Price := some 0
  bestAsk : Option Price := some 0

/-- What `curl_easy_init` and `curl_easy_perform` report. -/
inductive Transfer where
  | noHandle
  | failed (error : String)
  | reply (httpCode : ℤ) (body : String)

/-- `exception` stands for the `what()` of an exception of a library. -/
inductive FetchError where
  | message (text : String)
  | exception

/-- The function returns `true` when there is no error. -/
structure Fetched where
  out : BookQuote
  error : Option FetchError

def parsePriceField : Json → Option (Option Price)
  | .str s => (stod s).map fun _ => stodPrice s
  | .int i => some (some (i : ℚ))
  | .float x => some (some x)
  | _ => some (some 0)

/-- `back()`, with no value where `empty()` holds. An object is ordered by its keys
and any other value is its own only element. -/
def back : Json → Option Json
  | .null => none
  | .arr xs => xs.getLast?
  | .obj fields => (fields.argmax Prod.fst).map Prod.snd
  | j => some j

def priceField (lvl : Json) : Option (Option Price) := (lvl.field? "price").bind parsePriceField

/-- The part in the `try` block after the text has been parsed. -/
def readBook (tokenId : String) (steadyNs systemMs : ℤ) (out : BookQuote) (j : Json) : Fetched :=
  match j.field? "bids", j.field? "asks" with
  | some bids, some asks =>
    match back bids, back asks with
    | some bid, some ask =>
      let out := { out with tokenId, localMonoNs := steadyNs, localWallMs := systemMs }
      match priceField bid with
      | none => { out, error := some .exception }
      | some p =>
        let out := { out with bestBid := p }
        match priceField ask with
        | none => { out, error := some .exception }
        | some q => { out := { out with bestAsk := q }, error := none }
    | _, _ => { out, error := some (.message "empty bids/asks") }
  | _, _ => { out, error := some .exception }

def fetchOrderBook (parse : String → Option Json) (tokenId : String) (steadyNs systemMs : ℤ)
    (out : BookQuote) : Transfer → Fetched
  | .noHandle => { out, error := some (.message "curl_easy_init failed") }
  | .failed text => { out, error := some (.message text) }
  | .reply httpCode body =>
    if httpCode < 200 ∨ httpCode ≥ 300 then
      { out, error := some (.message ("HTTP " ++ toString httpCode ++ " body=" ++ body)) }
    else
      match parse body with
      | none => { out, error := some .exception }
      | some j => readBook tokenId steadyNs systemMs out j

/-- The bid and the ask after a fetch that succeeded. -/
def Fetched.top? (r : Fetched) : Option (Option Price × Option Price) :=
  match r.error with
  | some _ => none
  | none => some (r.out.bestBid, r.out.bestAsk)

end LeadLag.Book
