import TemplateLint.Json.Write

/-!
# Environments

The global names that are known without a declaration: those of the language itself, and
those of the environments that a program says it runs in.
-/

namespace TemplateLint

def languageGlobals : List String := [
  "Array", "ArrayBuffer", "Atomics", "BigInt", "BigInt64Array", "BigUint64Array", "Boolean",
  "DataView", "Date", "Error", "EvalError", "Float32Array", "Float64Array", "Function",
  "Infinity", "Int16Array", "Int32Array", "Int8Array", "Intl", "JSON", "Map", "Math", "NaN",
  "Number", "Object", "Promise", "Proxy", "RangeError", "ReferenceError", "Reflect", "RegExp",
  "Set", "SharedArrayBuffer", "String", "Symbol", "SyntaxError", "TypeError", "URIError",
  "Uint16Array", "Uint32Array", "Uint8Array", "Uint8ClampedArray", "WeakMap", "WeakSet",
  "decodeURI", "decodeURIComponent", "encodeURI", "encodeURIComponent", "escape", "eval",
  "globalThis", "isFinite", "isNaN", "parseFloat", "parseInt", "undefined", "unescape",
  "constructor", "hasOwnProperty", "isPrototypeOf", "propertyIsEnumerable", "toLocaleString",
  "toString", "valueOf"]

def browserGlobals : List String := [
  "AbortController", "AbortSignal", "Audio", "Blob", "BroadcastChannel", "CSS", "Credential",
  "CredentialsContainer", "CustomEvent", "DOMException", "DOMParser", "Document",
  "DocumentFragment", "Element", "Event", "EventSource", "EventTarget", "File", "FileList",
  "FileReader", "FormData", "HTMLElement", "Headers", "History", "IntersectionObserver",
  "Image", "KeyboardEvent", "Location", "MediaQueryList", "MessageChannel", "MessageEvent",
  "MouseEvent", "MutationObserver", "Navigator", "Node", "NodeList", "Notification",
  "PerformanceObserver", "PromiseRejectionEvent", "Request", "ResizeObserver", "Response",
  "ShadowRoot", "Storage", "Text", "TextDecoder", "TextEncoder", "URL", "URLSearchParams",
  "WebSocket", "Window", "Worker", "XMLHttpRequest", "XMLSerializer", "addEventListener",
  "alert", "atob", "blur", "btoa", "cancelAnimationFrame", "cancelIdleCallback",
  "clearInterval", "clearTimeout", "close", "confirm", "console", "crypto", "customElements",
  "devicePixelRatio", "dispatchEvent", "document", "fetch", "focus", "getComputedStyle",
  "history", "indexedDB", "innerHeight", "innerWidth", "localStorage", "location",
  "matchMedia", "name", "navigator", "open", "opener", "parent", "performance", "postMessage",
  "print", "prompt", "queueMicrotask", "removeEventListener", "requestAnimationFrame",
  "requestIdleCallback", "screen", "scroll", "scrollBy", "scrollTo", "scrollX", "scrollY",
  "self", "sessionStorage", "setInterval", "setTimeout", "top", "window"]

def nodeGlobals : List String := [
  "Buffer", "TextDecoder", "TextEncoder", "URL", "URLSearchParams", "__dirname", "__filename",
  "clearImmediate", "clearInterval", "clearTimeout", "console", "exports", "global", "module",
  "process", "queueMicrotask", "require", "setImmediate", "setInterval", "setTimeout"]

inductive Environment where
  | builtin | browser | node | es6 | es2017
  deriving DecidableEq, Repr

inductive EnvironmentError where
  /-- There is no environment of this name; the value is given as messages show it. -/
  | unknown (shown : String)
  /-- The value is a list or an object, which can be no name at all. -/
  | notAName
  deriving DecidableEq, Repr

namespace EnvironmentError

def message : EnvironmentError → String
  | .unknown shown => "unknown environment " ++ shown
  | .notAName => "not the name of an environment"

end EnvironmentError

namespace Environment

def byName : Entries Environment :=
  [("builtin", .builtin), ("browser", .browser), ("node", .node), ("es6", .es6),
    ("es2017", .es2017)]

def ofName? (name : String) : Option Environment := byName.find? name

def ofName (name : String) : Except EnvironmentError Environment :=
  match ofName? name with
  | some environment => .ok environment
  | none => .error (.unknown (Text.quote name))

def ofJson : Json → Except EnvironmentError Environment
  | .text name => ofName name
  | .list _ | .object _ => .error .notAName
  | value => .error (.unknown value.inspect)

def globals : Environment → List String
  | .builtin => languageGlobals
  | .browser => browserGlobals
  | .node => nodeGlobals
  | .es6 | .es2017 => []

end Environment

/-- The known global names, each with whether it may be assigned: those of the language
may not, those of the environments may. -/
def globalsFor (environments : List Environment) : Entries Bool :=
  let added := environments.flatMap fun environment =>
    environment.globals.filter fun name => !languageGlobals.contains name
  languageGlobals.map (·, false) ++ added.eraseDups.map (·, true)

end TemplateLint
