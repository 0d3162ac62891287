import Bindery.Binding.Method
import Bindery.Output.GeneratedFile
import Bindery.TypeScript.CommandFile

/-!
# The file of the client

A class with one method for each bound command, in the order in which they were bound. A command
whose method or parameter type is already there cannot be bound.
-/

namespace Bindery.TypeScript
set_option autoImplicit false

open Output (GeneratedFile)

/-- The body of the method that sends a call: one connection for each, closed after the first piece
of the answer. -/
def callBody : List String :=
  Text.linesOf r#"return new Promise((resolve, reject) => {
  const client = net.createConnection(this._socketPath);
  const payload = {
    method: method,
    params: params,
    id: 0,
  };

  client.on("error", reject);
  client.write(JSON.stringify(payload));

  client.on("data", (data) => {
    client.end();
    const text = data.toString("utf8");
    let parsed: unknown;
    try {
      parsed = JSON.parse(text);
    } catch {
      resolve(text as unknown as ReturnType);
      return;
    }
    if (typeof parsed === "object" && parsed !== null && "result" in parsed) {
      resolve((parsed as { result: ReturnType }).result);
    } else {
      resolve(parsed as ReturnType);
    }
  });
});"#

/-- The client as far as it is bound: the names of its class and file, and the stem and method of
each command. -/
structure Client where
  className : String
  fileName : String
  entries : List (String × Binding.Method)
deriving Repr, DecidableEq, Inhabited

namespace Client

/-- The client without commands. -/
def new (className fileName : String) : Client :=
  ⟨className, fileName, []⟩

/-- Adds the method of a command. -/
def push (client : Client) (stem : String) (method : Binding.Method) : Client :=
  { client with entries := client.entries ++ [(stem, method)] }

/-- Whether two methods cannot stand in one client. -/
def clashes (a b : Binding.Method) : Bool :=
  a.identifier = b.identifier || a.request = b.request

/-- The stem of the command that keeps a method from being added. -/
def conflict? (client : Client) (method : Binding.Method) : Option String :=
  (client.entries.find? fun e => clashes e.2 method).map (·.1)

/-- The import of a command's types. -/
def typeImport (entry : String × Binding.Method) : Import :=
  ⟨"./" ++ entry.1, none, none, [entry.2.request, entry.2.response], true⟩

/-- The import of the connection library. -/
def netImport : Import :=
  ⟨"net", none, some "net", [], false⟩

/-- The method that sends a call. -/
def callMethod : Method :=
  { name := "_call"
    doc := none
    isPrivate := true
    typeParameters := some "ReturnType = unknown"
    parameters := [⟨"method", "string", none, false⟩, ⟨"params", "unknown", some "null", false⟩]
    returns := some "Promise<ReturnType>"
    body := callBody }

/-- The method of a command. Its parameters may be left out if none is required. -/
def commandMethod (method : Binding.Method) : Method :=
  let omitted := if method.hasRequired then none else some "{}"
  { name := method.identifier
    doc := Method.docOf method.doc
    isPrivate := false
    typeParameters := none
    parameters := [⟨"payload", method.request, omitted, false⟩]
    returns := some ("Promise<" ++ method.response ++ ">")
    body := ["return this._call<" ++ method.response ++ ">(" ++ Json.quote method.wireName ++
      ", payload);"] }

/-- The class. -/
def classDefinition (client : Client) : Class :=
  { name := client.className
    isDefault := true
    constructor := some [⟨"_socketPath", "string", none, true⟩]
    methods := callMethod :: client.entries.map fun e => commandMethod e.2 }

/-- The text of the file. -/
def text (client : Client) : String :=
  ((((SourceFile.empty.withHeader generatedHeader).addImport netImport).addImportGroup
    (client.entries.map typeImport)).add (.classDefinition client.classDefinition)).render

/-- The file in a directory. -/
def file (client : Client) (dir : Path) : GeneratedFile :=
  ⟨dir.join ⟨client.fileName⟩, client.text, .always, some generatedHeader⟩

end Client

end Bindery.TypeScript
