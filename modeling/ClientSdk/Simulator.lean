import ClientSdk.Config
import ClientSdk.Text.Lines

/-!
# The simulation helper

The file that checks the parameters of simulated requests.  It is the same for
every API but for the library that it takes its error type from.
-/

namespace ClientSdk.Simulator

def sourceLines (fetcher : String) : List String :=
  ["import \x7b HttpError \x7d from \"" ++ fetcher ++ "\";",
   "import typia from \"typia\";",
   "",
   "export namespace NestiaSimulator \x7b",
   "  export interface IProps \x7b",
   "    host: string;",
   "    path: string;",
   "    method: \"GET\" | \"POST\" | \"PUT\" | \"PATCH\" | \"DELETE\" | \"HEAD\";",
   "    contentType: string;",
   "  \x7d",
   "",
   "  export const assert = (props: IProps) => \x7b",
   "    return \x7b",
   "      param: param(props),",
   "      query: query(props),",
   "      body: body(props),",
   "      headers: headers(props),",
   "    \x7d;",
   "  \x7d;",
   "",
   "  const param =",
   "    (props: IProps) =>",
   "    (name: string) =>",
   "    (task: () => any): void => \x7b",
   "      validate(",
   "        (exp) => `URL parameter \"$\x7bname\x7d\" is not $\x7bexp.expected\x7d type.`,",
   "      )(props)(task);",
   "    \x7d;",
   "",
   "  const query =",
   "    (props: IProps) =>",
   "    (task: () => any): void =>",
   "      validate(",
   "        () => \"Request query parameters are not following the promised type.\",",
   "      )(props)(task);",
   "",
   "  const body =",
   "    (props: IProps) =>",
   "    (task: () => any): void =>",
   "      validate(() => \"Request body is not following the promised type.\")(",
   "        props,",
   "      )(task);",
   "",
   "  const headers =",
   "    (props: IProps) =>",
   "    (task: () => any): void =>",
   "      validate(() => \"Request headers are not following the promised type.\")(",
   "        props,",
   "      )(task);",
   "",
   "  const validate =",
   "    (message: (exp: typia.TypeGuardError) => string, path?: string) =>",
   "    (props: IProps) =>",
   "    (task: () => any): void => \x7b",
   "      try \x7b",
   "        task();",
   "      \x7d catch (exp) \x7b",
   "        if (typia.is<HttpError>(exp)) throw exp;",
   "        else if (exp instanceof typia.TypeGuardError)",
   "          throw new HttpError(",
   "            props.method,",
   "            props.host + props.path,",
   "            400,",
   "            \x7b",
   "              \"Content-Type\": props.contentType,",
   "            \x7d,",
   "            JSON.stringify(\x7b",
   "              method: exp.method,",
   "              path: path ?? exp.path,",
   "              expected: exp.expected,",
   "              value: exp.value,",
   "              message: message(exp),",
   "            \x7d),",
   "          );",
   "        throw exp;",
   "      \x7d",
   "    \x7d;",
   "\x7d"]

def source (c : Config) : String :=
  Text.unlines (sourceLines c.fetcher) ++ "\n"

end ClientSdk.Simulator
