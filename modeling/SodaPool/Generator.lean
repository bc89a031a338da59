import SodaPool.Parser

/-!
# The generator of pooled clients

Around every client it puts a struct with the pool, two constructors and two functions for
every method. `Ident::new` is the only thing that can go wrong: it panics on a text that is
no identifier.
-/

namespace SodaPool

open Syn

variable (identNew : String → Option Ident)

namespace GrpcClientMethod

/-- The body of a method: one try after the other is left to the variant with a policy. -/
def delegate (methodNameWithRetry : Ident) : String :=
  "#[allow(deprecated)] self." ++ methodNameWithRetry.text ++
    "::<soda_pool::DefaultRetryPolicy>(request).await"

/-- The body of a method with a policy. -/
def retryLoop (originalClientName methodName : Ident) : String :=
  "let (metadata, extensions, message) = request.into_request().into_parts();
  let mut tries = 0;
  loop \x7b
    tries += 1;
    let (ip_address, channel) = self.pool.get_channel().await.ok_or_else(|| \x7b
      tonic::Status::unavailable(\"No ready channels\")
    \x7d)?;
    let request = tonic::Request::from_parts(
      metadata.clone(), extensions.clone(), message.clone(),
    );
    #[allow(deprecated)]
    let result = " ++ originalClientName.text ++ "::new(channel)." ++ methodName.text ++
    "(request).await;
    match result \x7b
      Ok(response) => \x7b return Ok(response); \x7d
      Err(e) => \x7b
        let (server_status, retry_time) = RP::should_retry(&e, tries);
        if matches!(server_status, soda_pool::ServerStatus::Dead) \x7b
          self.pool.report_broken(ip_address).await;
        \x7d
        match retry_time \x7b
          soda_pool::RetryTime::DoNotRetry => \x7b return Err(e); \x7d
          soda_pool::RetryTime::Immediately => \x7b continue; \x7d
          soda_pool::RetryTime::After(duration) => \x7b
            soda_pool::deps::sleep(duration).await;
          \x7d
        \x7d
      \x7d
    \x7d
  \x7d"

/-- What both functions of a method have in common. -/
def function (m : GrpcClientMethod) (name : Ident) (generics block : String) : ImplItemFn where
  attrs := if m.deprecated then [⟨.plain ["deprecated"],""⟩] else []
  qualifiers := "pub async"
  ident := name
  generics := generics
  inputs := [.receiver "&self",
    .typed "request" (.implTrait [.trait (.applied ["tonic"] "IntoRequest" [.type m.requestType])])]
  output := .type (.path (.applied ["std","result"] "Result" [
    .type (.path (.applied ["tonic"] "Response" [.type m.responseType])),
    .type (.path (.plain ["tonic","Status"]))]))
  block := block

def generatePooledVersion (m : GrpcClientMethod) (originalClientName : Ident) :
    Option (List ImplItem) := do
  let methodNameWithRetry ← identNew (m.name.text ++ "_with_retry")
  return [.fn (m.function m.name "" (delegate methodNameWithRetry)),
    .fn (m.function methodNameWithRetry "<RP: soda_pool::RetryPolicy>"
      (retryLoop originalClientName m.name))]

end GrpcClientMethod

namespace GrpcClientImpl

/-- The struct with the pool. -/
def poolStruct (clientPoolIdent : Ident) : Item :=
  .other ("#[derive(Clone)] pub struct " ++ clientPoolIdent.text ++
    " \x7b pool: std::sync::Arc<dyn soda_pool::ChannelPool + Send + Sync>, \x7d")

def constructors : List ImplItem :=
  [.fn ⟨[],"pub",⟨"new"⟩,"",[.typed "pool" (.implTrait [.trait (.plain ["soda_pool","ChannelPool"]),
      .trait (.plain ["Send"]),.trait (.plain ["Sync"]),.other "'static"])],
      .type (.path (.plain ["Self"])),"Self \x7b pool: std::sync::Arc::new(pool) \x7d"⟩,
    .fn ⟨[],"pub",⟨"new_from_endpoint"⟩,"",
      [.typed "endpoint" (.path (.plain ["soda_pool","EndpointTemplate"]))],
      .type (.path (.plain ["Self"])),"Self \x7b pool: std::sync::Arc::new(
        soda_pool::ManagedChannelPoolBuilder::new(endpoint).build()), \x7d"⟩]

/-- An `impl` block of the pooled client. -/
def poolImpl (clientPoolIdent : Ident) (items : List ImplItem) : Item :=
  .impl ⟨"",.path ⟨"",[⟨clientPoolIdent,.none⟩]⟩,items⟩

def generatePooledVersion (c : GrpcClientImpl) : Option (List Item) := do
  let clientPoolIdent ← identNew (c.name.text ++ "Pool")
  let methods ← c.methods.mapM (fun m => m.generatePooledVersion identNew c.name)
  return [poolStruct clientPoolIdent,poolImpl clientPoolIdent constructors,
    poolImpl clientPoolIdent methods.flatten]

end GrpcClientImpl

namespace GrpcClientModule

def generatePooledVersion (m : GrpcClientModule) (originalFileModule : Ident) : Option Item := do
  let clients ← m.clients.mapM (GrpcClientImpl.generatePooledVersion identNew)
  return .mod ⟨m.name,some (.other ("use super::super::" ++ originalFileModule.text ++ "::" ++
    m.name.text ++ "::*;")::clients.flatten)⟩

end GrpcClientModule

namespace GrpcClientFile

/-- The tokens as the tree they stand for. -/
def generatePooledVersion (f : GrpcClientFile) : Option File := do
  let clientModules ← f.clientModules.mapM (fun m => m.generatePooledVersion identNew f.fileModule)
  return ⟨"#![allow(clippy::unit_arg, clippy::clone_on_copy,)]",
    .other ("use super::" ++ f.fileModule.text ++ "::*;")::clientModules⟩

end GrpcClientFile
end SodaPool
