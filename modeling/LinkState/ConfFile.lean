import LinkState.HelloProtocol
import LinkState.Library.Fallible
import LinkState.State

/-!
# The configuration file

`ConfFileProcessor::load` goes through the sections of a property tree and stores what it reads in
the daemon; it gives up at the first section that is not accepted. Boost reads the tree and turns
texts into numbers, ndn-cxx parses names and face URIs and loads certificates: these are the
fields of `ConfLib`.

`load` returns the configured daemon where the source returns true. Where it returns false, or an
exception leaves it, the program ends, and nothing is left of what was stored.
-/

namespace LinkState

open HelloProtocol

/-- A tree of `boost::property_tree`: a text, and children with keys in the order of the file. -/
inductive Ptree
  | node (data : String) (children : List (String × Ptree))

namespace Ptree

def data : Ptree → String
  | node data _ => data

def children : Ptree → List (String × Ptree)
  | node _ children => children

end Ptree

structure IdentityCertificate where
  name : Name
  wire : List UInt8
  deriving DecidableEq

/-- The libraries and the file system, as far as the processor uses them. -/
structure ConfLib where
  /-- `ptree::find`, which may pick any child of several with one key. -/
  find : Ptree → String → Option Ptree
  /-- The conversions of `ptree::get`; `none` where they fail. -/
  toUInt32 : String → Option UInt32
  toInt : String → Option Int
  toDouble : String → Option Double
  /-- The constructor of a name from a URI; `none` where it throws. -/
  fromUri : String → Option Name
  /-- `FaceUri::parse`. -/
  isFaceUri : String → Bool
  /-- `boost::filesystem::exists` and `is_directory`; `none` where they throw. -/
  pathExists : String → Option Bool
  isDirectory : String → Option Bool
  /-- A file can be opened in the directory. -/
  isWritable : String → Bool
  /-- `ValidatorConfig::load` does not throw. -/
  loadsValidator : Ptree → Bool
  /-- `ndn::io::load` of a file named relative to the configuration file. -/
  loadCertificate : String → Option IdentityCertificate

/-- Why `load` does not return true. -/
inductive ConfError
  /-- A check failed and this was printed. -/
  | failed (message : String)
  /-- An exception was caught, and this was printed along with what it says. -/
  | caught (message : String)
  /-- An exception leaves `load`. -/
  | thrown
  deriving DecidableEq

namespace ConfLib

/-- `section.get<T>(key)`, with the conversion to `T`; `none` where it throws. -/
def get {T : Type} (lib : ConfLib) (convert : String → Option T) (sec : Ptree) (key : String) :
    Option T :=
  (lib.find sec key).bind fun child => convert child.data

def getString (lib : ConfLib) (sec : Ptree) (key : String) : Option String :=
  lib.get some sec key

end ConfLib

/-! ## Parameters -/

/-- The smallest, the default and the largest value of a parameter. -/
structure Limits (T : Type) [LE T] where
  min : T
  default : T
  max : T
  min_le_default : min ≤ default
  default_le_max : default ≤ max

namespace Limits

variable {T : Type} [LE T]

def Allows (limits : Limits T) (value : T) : Prop := limits.min ≤ value ∧ value ≤ limits.max

instance (limits : Limits T) (value : T) [DecidableLE T] : Decidable (limits.Allows value) :=
  inferInstanceAs (Decidable (_ ∧ _))

/-- A text, and the limits behind it. -/
def printed [ToString T] (limits : Limits T) (text : String) : String :=
  s!"{text}{limits.min}-{limits.max}"

/-- A default passes its own check. -/
theorem allows_default (limits : Limits T) : limits.Allows limits.default :=
  ⟨limits.min_le_default, limits.default_le_max⟩

end Limits

def lsaRefreshTimeLimits : Limits UInt32 := ⟨240, 1800, 7200, by decide, by decide⟩
def lsaInterestLifetimeLimits : Limits Int := ⟨1, 4, 60, by decide, by decide⟩
def adjLsaBuildIntervalLimits : Limits UInt32 := ⟨0, 5, 10, by decide, by decide⟩
def firstHelloIntervalLimits : Limits UInt32 := ⟨0, 10, 20, by decide, by decide⟩
def routingCalcIntervalLimits : Limits UInt32 := ⟨0, 15, 30, by decide, by decide⟩
def helloRetriesLimits : Limits Int := ⟨1, 3, 15, by decide, by decide⟩
def helloTimeoutLimits : Limits UInt32 := ⟨1, 3, 15, by decide, by decide⟩
def helloIntervalLimits : Limits UInt32 := ⟨30, 60, 90, by decide, by decide⟩
def maxFacesPerPrefixLimits : Limits Int := ⟨0, 0, 60, by decide, by decide⟩

/-- `ConfParameter` with the fields that only the file processor writes. -/
structure FileParameter extends ConfParameter where
  firstHelloInterval : UInt32 := firstHelloIntervalLimits.default
  lsaInterestLifetime : Duration := seconds lsaInterestLifetimeLimits.default
  logLevel : String := "INFO"
  infoInterestInterval : UInt32 := helloIntervalLimits.default
  logDir : String := ""
  seqFileDir : String := ""
  /-- `none` while `m_isLog4cxxConfAvailable` is false. -/
  log4CxxConfPath : Option String := none

/-- The certificates by their names without version. -/
abbrev CertificateStore := KeyedList (fun c : IdentityCertificate => dropLast c.name 1)

/-- `m_certificates[…] = certificate`. -/
def CertificateStore.insert (store : CertificateStore) (certificate : IdentityCertificate) :
    CertificateStore :=
  if store.contains (dropLast certificate.name 1) then store.replace certificate
  else KeyedList.insert store certificate

/-- What the processor writes in the daemon. -/
structure Configured where
  confParam : FileParameter := {}
  adjacencyList : AdjacencyList := KeyedList.empty
  namePrefixList : NamePrefixList := KeyedList.empty
  /-- The section the validator of the daemon has loaded. -/
  validator : Option Ptree := none
  /-- `m_isEnabled` of the prefix update processor, and the section its validator has loaded. -/
  isPrefixUpdateEnabled : Bool := false
  prefixUpdateValidator : Option Ptree := none
  /-- The certificates `loadCertToPublish` was called with. -/
  certsToPublish : List IdentityCertificate := []

def Configured.certStore (s : Configured) : CertificateStore :=
  s.certsToPublish.foldl CertificateStore.insert KeyedList.empty

/-! ## Checks -/

/-- The common check of a parameter: the value or the default must be in its limits. -/
def checkedValue {T : Type} [LE T] [DecidableLE T] (limits : Limits T) (value : Option T)
    (message : String) : Except ConfError T :=
  let value := value.getD limits.default
  if limits.Allows value then .ok value else .error (.failed message)

/-- `ConfigurationVariable`. -/
structure ConfigurationVariable (T : Type) where
  key : String
  setterCallback : T → Configured → Configured
  /-- The range, once `setMinAndMaxValue` has been called. -/
  range : Option (T × T) := none
  /-- The default, once `setOptional` has been called. -/
  defaultValue : Option T := none

namespace ConfigurationVariable

variable {T : Type} [LT T] [DecidableLT T] [ToString T]

def isValidValue (v : ConfigurationVariable T) (value : T) : Except ConfError Unit :=
  match v.range with
  | none => .ok ()
  | some (min, max) =>
    if value < min ∨ max < value then
      .error (.failed s!"Invalid value for {v.key}: {value}. Valid values: {min} - {max}")
    else .ok ()

def parseFromConfigSection (lib : ConfLib) (v : ConfigurationVariable T)
    (convert : String → Option T) (sec : Ptree) (s : Configured) : Except ConfError Configured :=
  match lib.get convert sec v.key with
  | some value => do
    v.isValidValue value
    return v.setterCallback value s
  | none =>
    match v.defaultValue with
    | some value => .ok (v.setterCallback value s)
    | none => .error (.caught "Missing required configuration variable")

end ConfigurationVariable

/-- A variable with the range and the default of its limits. -/
def limitedVariable (key : String) (setterCallback : UInt32 → Configured → Configured)
    (limits : Limits UInt32) : ConfigurationVariable UInt32 :=
  { key, setterCallback, range := some (limits.min, limits.max)
    defaultValue := some limits.default }

/-- `boost::iequals`. -/
def iequals (a b : String) : Bool := a.toList.map Char.toUpper = b.toList.map Char.toUpper

def isValidLogLevel (logLevel : String) : Bool :=
  iequals logLevel "all" || iequals logLevel "trace" || iequals logLevel "debug" ||
    iequals logLevel "info" || iequals logLevel "warn" || iequals logLevel "error" ||
    iequals logLevel "none"

namespace ConfFileProcessor

variable (lib : ConfLib)

/-! ## The general section -/

/-- A component of the router's name. -/
def processName (uri message : String) : Except ConfError Name := do
  let name ← orError (lib.fromUri uri) (.caught "")
  require (name ≠ []) (.failed message)
  return name

def processNames (sec : Ptree) (s : Configured) : Except ConfError Configured := do
  let network ← orError (lib.getString sec "network") (.caught "")
  let site ← orError (lib.getString sec "site") (.caught "")
  let router ← orError (lib.getString sec "router") (.caught "")
  let network ← processName lib network
    " Network can not be null or empty or in bad URI format :(!"
  let siteName ← processName lib site "Site can not be null or empty or in bad URI format:( !"
  let routerName ← processName lib router
    " Router name can not be null or empty or in bad URI format:( !"
  return { s with confParam := { s.confParam with network, siteName, routerName } }

/-- `lsa-refresh-time` and `router-dead-interval`. -/
def processRefresh (sec : Ptree) (s : Configured) : Except ConfError Configured := do
  let lsaRefreshTime ← checkedValue lsaRefreshTimeLimits
    (lib.get lib.toUInt32 sec "lsa-refresh-time")
    (lsaRefreshTimeLimits.printed "Wrong value for lsa-refresh-time Allowed value: ")
  let routerDeadInterval :=
    (lib.get lib.toUInt32 sec "router-dead-interval").getD (2 * lsaRefreshTime)
  require (routerDeadInterval > lsaRefreshTime)
    (.failed "Value of router-dead-interval must be larger than lsa-refresh-time")
  return { s with confParam := { s.confParam with lsaRefreshTime, routerDeadInterval } }

def processLifetime (sec : Ptree) (s : Configured) : Except ConfError Configured := do
  let lifetime ← checkedValue lsaInterestLifetimeLimits
    (lib.get lib.toInt sec "lsa-interest-lifetime")
    (lsaInterestLifetimeLimits.printed "Wrong value for lsa-interest-timeout. Allowed value:")
  return { s with confParam := { s.confParam with lsaInterestLifetime := seconds lifetime } }

def processLogLevel (sec : Ptree) (s : Configured) : Except ConfError Configured := do
  let logLevel := (lib.getString sec "log-level").getD "INFO"
  require (isValidLogLevel logLevel) (.failed
    "Invalid value for log-level Valid values: ALL, TRACE, DEBUG, INFO, WARN, ERROR, NONE")
  return { s with confParam := { s.confParam with logLevel } }

/-- A directory that must be there and be writable. -/
def processDirectory (sec : Ptree) (key what : String) : Except ConfError String := do
  let unconfigured := .caught s!"You must configure {what} directory"
  let dir ← orError (lib.getString sec key) unconfigured
  let pathExists ← orError (lib.pathExists dir) unconfigured
  require pathExists (.failed s!"Provided {what} directory <{dir}> does not exist")
  let isDirectory ← orError (lib.isDirectory dir) unconfigured
  require isDirectory (.failed "Provided path is not a directory")
  require (lib.isWritable dir)
    (.failed "User does not have read and write permission on the directory")
  return dir

def processDirectories (sec : Ptree) (s : Configured) : Except ConfError Configured := do
  let logDir ← processDirectory lib sec "log-dir" "log"
  let seqFileDir ← processDirectory lib sec "seq-dir" "sequence"
  return { s with confParam := { s.confParam with logDir, seqFileDir } }

/-- `log4cxx-conf`, which may be left out. A path that cannot be looked up is passed over. -/
def processLog4Cxx (sec : Ptree) (s : Configured) : Except ConfError Configured :=
  match lib.getString sec "log4cxx-conf" with
  | none => .ok s
  | some path => do
    require (path ≠ "") (.failed "No value provided for log4cxx-conf")
    match lib.pathExists path with
    | none => return s
    | some pathExists =>
      require pathExists (.failed s!"Provided path for log4cxx-conf <{path}> does not exist")
      return { s with confParam := { s.confParam with log4CxxConfPath := some path } }

def processConfSectionGeneral (sec : Ptree) (s : Configured) : Except ConfError Configured := do
  let s ← processNames lib sec s
  let s ← processRefresh lib sec s
  let s ← processLifetime lib sec s
  let s ← processLogLevel lib sec s
  let s ← processDirectories lib sec s
  processLog4Cxx lib sec s

/-! ## The other sections -/

/-- The parameters of the Hello protocol. -/
def processHello (sec : Ptree) (s : Configured) : Except ConfError Configured := do
  let retrials ← checkedValue helloRetriesLimits (lib.get lib.toInt sec "hello-retries")
    (helloRetriesLimits.printed "Wrong value for hello-retries. Allowed value:")
  let timeOut ← checkedValue helloTimeoutLimits (lib.get lib.toUInt32 sec "hello-timeout")
    (helloTimeoutLimits.printed "Wrong value for hello-timeout. Allowed value:")
  let interval ← checkedValue helloIntervalLimits (lib.get lib.toUInt32 sec "hello-interval")
    (helloIntervalLimits.printed "Wrong value for hello-interval. Allowed value:")
  return { s with confParam := { s.confParam with
    interestRetryNumber := retrials.toNat.toUInt32
    interestResendTime := timeOut
    infoInterestInterval := interval } }

def adjLsaBuildInterval : ConfigurationVariable UInt32 :=
  limitedVariable "adj-lsa-build-interval"
    (fun adjLsaBuildInterval s => { s with confParam := { s.confParam with adjLsaBuildInterval } })
    adjLsaBuildIntervalLimits

def firstHelloInterval : ConfigurationVariable UInt32 :=
  limitedVariable "first-hello-interval"
    (fun firstHelloInterval s => { s with confParam := { s.confParam with firstHelloInterval } })
    firstHelloIntervalLimits

def routingCalcInterval : ConfigurationVariable UInt32 :=
  limitedVariable "routing-calc-interval"
    (fun routingCalcInterval s => { s with confParam := { s.confParam with routingCalcInterval } })
    routingCalcIntervalLimits

/-- The link cost a neighbour is configured with: any number, or the default. -/
def linkCostOf (sec : Ptree) : Double := (lib.get lib.toDouble sec "link-cost").getD 10

/-- A child of the section of the neighbours. One without a name is passed over. -/
def processNeighbor (s : Configured) : String × Ptree → Except ConfError Configured
  | ("neighbor", sec) => do
    let name ← orError (lib.getString sec "name") (.caught "")
    let faceUri ← orError (lib.getString sec "face-uri") (.caught "")
    require (lib.isFaceUri faceUri) (.failed s!"Malformed face-uri <{faceUri}> for {name}")
    let neighborName ← orError (lib.fromUri name) (.caught "")
    if neighborName ≠ [] then
      let adj : Adjacent :=
        { name := neighborName, connectingFaceUri := faceUri, linkCost := linkCostOf lib sec }
      return { s with adjacencyList := s.adjacencyList.insert adj }
    else return s
  | _ => .ok s

def processConfSectionNeighbors (sec : Ptree) (s : Configured) : Except ConfError Configured := do
  let s ← processHello lib sec s
  let s ← adjLsaBuildInterval.parseFromConfigSection lib lib.toUInt32 sec s
  let s ← firstHelloInterval.parseFromConfigSection lib lib.toUInt32 sec s
  sec.children.foldlM (processNeighbor lib) s

def stateOf (sec : Ptree) : String := (lib.getString sec "state").getD "off"

def processState (state : String) : Except ConfError HyperbolicState :=
  if iequals state "off" then .ok .off
  else if iequals state "on" then .ok .on
  else if state = "dry-run" then .ok .dryRun
  else .error (.failed "Wrong format for hyperbolic state. Allowed value: off, on, dry-run")

def processConfSectionHyperbolic (sec : Ptree) (s : Configured) :
    Except ConfError Configured := do
  let state := stateOf lib sec
  let hyperbolicState ← processState state
  let s := { s with confParam := { s.confParam with hyperbolicState } }
  match lib.get lib.toDouble sec "radius", lib.get lib.toDouble sec "angle" with
  | some corR, some corTheta => do
    -- `setCorR` takes no negative radius
    require (corR ≥ 0) (.failed "")
    return { s with confParam := { s.confParam with corR, corTheta } }
  | _, _ => do
    require (¬ (state = "on" ∨ state = "dry-run")) (.caught "")
    return s

def processConfSectionFib (sec : Ptree) (s : Configured) : Except ConfError Configured := do
  let maxFacesPerPrefix ← checkedValue maxFacesPerPrefixLimits
    (lib.get lib.toInt sec "max-faces-per-prefix")
    s!"Wrong value for max-faces-per-prefix. {maxFacesPerPrefixLimits.min}"
  let s := { s with confParam := { s.confParam with
    maxFacesPerPrefix := maxFacesPerPrefix.toNat.toUInt32 } }
  routingCalcInterval.parseFromConfigSection lib lib.toUInt32 sec s

/-- A child of the section of the advertised names. -/
def processPrefix (s : Configured) : String × Ptree → Except ConfError Configured
  | ("prefix", sec) => do
    let namePrefix ← orError (lib.fromUri sec.data) (.caught "")
    require (namePrefix ≠ [])
      (.failed " Wrong command format ! [prefix /name/prefix] or bad URI")
    return { s with namePrefixList := s.namePrefixList.insert namePrefix }
  | _ => .ok s

def processConfSectionAdvertising (sec : Ptree) (s : Configured) : Except ConfError Configured :=
  sec.children.foldlM (processPrefix lib) s

/-- `Nlsr::loadValidator`. -/
def loadValidator (sec : Ptree) (s : Configured) : Except ConfError Configured := do
  require (lib.loadsValidator sec) .thrown
  return { s with validator := some sec }

/-- `PrefixUpdateProcessor::enable`, then its `loadValidator`. -/
def loadPrefixUpdateValidator (sec : Ptree) (s : Configured) : Except ConfError Configured := do
  require (lib.loadsValidator sec) .thrown
  return { s with isPrefixUpdateEnabled := true, prefixUpdateValidator := some sec }

/-- A child behind the two validators. -/
def processCert (s : Configured) : String × Ptree → Except ConfError Configured
  | ("cert-to-publish", sec) => do
    let idCert ← orError (lib.loadCertificate sec.data)
      (.failed s!"Error: Cannot load cert-to-publish: {sec.data}!")
    return { s with certsToPublish := s.certsToPublish ++ [idCert] }
  | _ => .error (.failed "Error: Expect cert-to-publish!")

/-- What may follow the validator. Only behind a validator of prefix updates is the rest of the
section looked at. -/
def processRest (s : Configured) : List (String × Ptree) → Except ConfError Configured
  | ("prefix-update-validator", sec) :: certs => do
    let s ← loadPrefixUpdateValidator lib sec s
    certs.foldlM (processCert lib) s
  | _ => .ok s

def processConfSectionSecurity (sec : Ptree) (s : Configured) : Except ConfError Configured :=
  match sec.children with
  | ("validator", validator) :: rest => do
    let s ← loadValidator lib validator s
    processRest lib s rest
  | _ => .error (.failed "Error: Expect validator section!")

def processSection (s : Configured) : String × Ptree → Except ConfError Configured
  | ("general", sec) => processConfSectionGeneral lib sec s
  | ("neighbors", sec) => processConfSectionNeighbors lib sec s
  | ("hyperbolic", sec) => processConfSectionHyperbolic lib sec s
  | ("fib", sec) => processConfSectionFib lib sec s
  | ("advertising", sec) => processConfSectionAdvertising lib sec s
  | ("security", sec) => processConfSectionSecurity lib sec s
  -- A wrong section is reported and passed over
  | _ => .ok s

def load (pt : Ptree) (s : Configured) : Except ConfError Configured :=
  pt.children.foldlM (processSection lib) s

/-! ## Plain texts -/

/-- A whole number, with a sign or without. -/
def readInt (text : String) : Option Int :=
  let digits (cs : List Char) : Option Int :=
    if cs ≠ [] ∧ cs.all Char.isDigit then
      some (cs.foldl (fun n c => 10 * n + (c.toNat - '0'.toNat : Nat)) 0)
    else none
  match text.toList with
  | '-' :: cs => (digits cs).map fun n => -n
  | cs => digits cs

/-- A name without escapes. -/
def readName (uri : String) : Name :=
  ((uri.toList.splitOn '/').filter fun cs => cs ≠ []).map fun cs => ⟨String.ofList cs⟩

def routerCert : IdentityCertificate := ⟨[⟨"router"⟩, ⟨"KEY"⟩, ⟨"ksk-1"⟩, ⟨"ID-CERT"⟩, ⟨"1"⟩], []⟩

/-- The libraries on plain texts, and a file system with one directory and one certificate. -/
def plainLib : ConfLib where
  find pt key := (pt.children.find? fun child => child.1 = key).map Prod.snd
  toUInt32 text := (readInt text).map fun n => UInt32.ofInt n
  toInt := readInt
  toDouble text := (readInt text).map fun n => (n : Double)
  fromUri uri := some (readName uri)
  isFaceUri _ := true
  pathExists path := some (path = "/tmp")
  isDirectory path := some (path = "/tmp")
  isWritable path := path = "/tmp"
  loadsValidator _ := true
  loadCertificate file := if file = "router.cert" then some routerCert else none

/-- A section with keys and values. -/
def plainSection (entries : List (String × String)) : Ptree :=
  .node "" (entries.map fun (key, value) => (key, .node value []))

end ConfFileProcessor

end LinkState
